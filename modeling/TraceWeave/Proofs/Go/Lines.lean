import TraceWeave.Proofs.Go.Excerpts
import TraceWeave.Proofs.Go.LayoutFiles
import TraceWeave.Proofs.Go.Places

/-!
Lines of a text and what stands on them. Between two statements of a block, and between two imports of a list, there
is a line break or a mark that ends a statement, outside of both; so the end of the one and the start of the other are
apart, also when each is moved to the end or the start of its line.
-/
namespace TraceWeave

namespace Text

variable {source : String} {offset position : Nat} {before rest : List Char}

/-- A line ends no later than the next line feed. -/
theorem lineEnd_le_of_feed (sound : isBoundary source offset = true) (feed : Cut source position before ('\n' :: rest))
    (later : offset ≤ position) : lineEnd source offset ≤ position := by
  by_contra inside
  obtain ⟨_, line, _, cut, cut', clear, _⟩ := exists_restOfLine sound
  have stop := cut'.size
  rw [byteCount_append, cut.size] at stop
  have member := (cut.mem_of_inside feed later (by omega)).1
  exact absurd (clear _ member) (by decide)

/-- A line begins behind the line feeds before it. -/
theorem lt_lineStart_of_feed (sound : isBoundary source position = true) (feed : Cut source offset before ('\n' :: rest))
    (earlier : offset < position) : offset < lineStart source position := by
  by_contra inside
  obtain ⟨_, line, _, cut, cut', clear, _⟩ := exists_line sound
  have stop := cut'.size
  rw [byteCount_append, cut.size] at stop
  have member := (cut.mem_of_inside feed (by omega) (by omega)).1
  exact absurd (clear _ member) (by decide)

end Text

namespace Go

namespace Token

variable {source : String} {offset : Nat} {newLine : Bool} {before cs : List Char} {token : Token}
  {early late : List Token}

/-- The start of the line of an offset, which nothing stands before on the line, is not inside a token. -/
theorem whole_lineStart (whole : Whole source offset) (starts : Text.startsLine source offset = true) :
    Whole source (Text.lineStart source offset) := by
  refine ⟨Text.isBoundary_lineStart whole.boundary, fun token member => ?_⟩
  rintro ⟨begun, goesOn⟩
  have bound := Text.lineStart_le source offset
  have passed : token.stop ≤ offset := by
    by_contra later
    exact whole.outside token member ⟨by omega, by omega⟩
  obtain ⟨before, c, rest, cut, space, _, _, stop⟩ := list_isRead member (by omega)
  obtain ⟨front, line, after, cutLine, cutOffset, _, fed⟩ := Text.exists_line whole.boundary
  rw [Text.startsLine, Text.isAllBlank, cutLine.slice_eq cutOffset, String.toList_ofList, List.all_eq_true] at starts
  generalize count : (Lexeme.after c rest).2 = more at stop
  have cutStop : Text.Cut source token.stop (before ++ c :: rest.take more) (rest.drop more) := by
    rw [stop]
    refine Text.Cut.step ?_
    rwa [List.cons_append, List.take_append_drop]
  -- the token, up to the start of the line and beyond
  obtain ⟨early, rfl, _⟩ := cut.exists_between cutLine (by omega)
  obtain ⟨late, whole', behind⟩ := cutLine.exists_between cutStop (by omega)
  rw [List.append_assoc] at whole'
  have parts : c :: rest.take more = early ++ late := List.append_cancel_left whole'
  have sizes := And.intro cutLine.size cutStop.size
  simp only [parts, Text.byteCount_append, cut.size] at sizes
  have filled : early ≠ [] := by
    rintro rfl
    rw [Text.byteCount_nil] at sizes
    omega
  have feed : '\n' ∈ early := by
    rcases fed with none | ⟨others, ends⟩
    · exact absurd (List.append_eq_nil_iff.1 none).2 filled
    · have last := congrArg List.getLast? ends
      rw [List.getLast?_append_of_ne_nil _ filled, List.getLast?_concat] at last
      exact List.mem_of_getLast? last
  have inside : '\n' ∈ rest.take more := by
    have listed : '\n' ∈ c :: rest.take more := parts ▸ List.mem_append_left _ feed
    rcases List.mem_cons.1 listed with rfl | inside
    · cases space
    · exact inside
  obtain ⟨last, final, shows⟩ := Lexeme.last_of_feed (count ▸ inside)
  have filled' : late ≠ [] := by
    rintro rfl
    rw [Text.byteCount_nil] at sizes
    omega
  -- the last character of the token stands on the line, where nothing shows
  have final' : late.getLast? = some last := by
    rw [← List.getLast?_append_of_ne_nil early filled', ← parts, List.getLast?_cons, ← count, final]
    rfl
  have onLine : last ∈ line := by
    have member' := List.mem_of_getLast? final'
    rcases List.append_eq_append_iff.1 behind with ⟨beyond, rfl, _⟩ | ⟨beyond, rfl, _⟩
    · have size := cutOffset.size
      simp only [Text.byteCount_append, cut.size] at size sizes
      cases beyond with
      | nil => rwa [List.append_nil] at member'
      | cons d beyond =>
          have room := d.utf8Size_pos
          rw [Text.byteCount_cons] at sizes
          omega
    · exact List.mem_append_left _ member'
  rw [starts last onLine] at shows
  cases shows

/-- Before a token that a line break stands before there is a line feed, behind every other token but the comments. -/
theorem exists_feed_listFrom (cut : Text.Cut source offset before cs)
    (split : listFrom offset newLine cs = early ++ token :: late) (feeds : token.newLine = true) (more : token.kind ≠ .eof) :
    (newLine = true ∧ ∀ other ∈ early, other.kind = .comment) ∨
      ∃ position before' rest, Text.Cut source position before' ('\n' :: rest) ∧ offset ≤ position ∧
        position < token.start ∧ ∀ other ∈ early, other.kind ≠ .comment → other.stop ≤ position := by
  fun_induction listFrom offset newLine cs generalizing before early with
  | case1 offset newLine =>
      have last : token ∈ early ++ token :: late := by simp
      rw [← split, List.mem_singleton] at last
      exact absurd (congrArg Token.kind last) more
  | case2 offset newLine c rest space ih =>
      have further : Text.Cut source (offset + Text.byteCount [c]) (before ++ [c]) rest := cut.step
      have behind : offset + c.utf8Size ≤ token.start :=
        le_start_of_listFrom (show token ∈ listFrom (offset + c.utf8Size) (newLine || c == '\n') rest by rw [split]; simp)
      have room := c.utf8Size_pos
      rcases ih further split with ⟨known, comments⟩ | ⟨position, before', rest', feed, lower, upper, others⟩
      · rw [Bool.or_eq_true, beq_iff_eq] at known
        rcases known with already | rfl
        · exact .inl ⟨already, comments⟩
        · refine .inr ⟨offset, before, rest, cut, Nat.le_refl _, by omega, fun other member solid => ?_⟩
          exact absurd (comments other member) solid
      · exact .inr ⟨position, before', rest', feed, by omega, upper, others⟩
  | case3 offset newLine c rest space kind count found lexeme =>
      rename_i stop ih
      cases early with
      | nil =>
          cases split
          exact .inl ⟨feeds, by simp⟩
      | cons first early =>
          obtain ⟨rfl, tail⟩ := List.cons.inj split
          have parts : Text.Cut source offset before (lexeme ++ rest.drop count) := by
            change Text.Cut source offset before (c :: (rest.take count ++ rest.drop count))
            rwa [List.take_append_drop]
          rcases ih parts.step tail with ⟨known, comments⟩ | ⟨position, before', rest', feed, lower, upper, others⟩
          · rw [Bool.and_eq_true, beq_iff_eq] at known
            exact .inl ⟨known.2, List.forall_mem_cons.2 ⟨known.1, comments⟩⟩
          · refine .inr ⟨position, before', rest', feed, Nat.le_trans (Nat.le_add_right _ _) lower, upper, ?_⟩
            exact List.forall_mem_cons.2 ⟨fun _ => lower, others⟩

theorem exists_feed (split : list source = early ++ token :: late) (feeds : token.newLine = true)
    (more : token.kind ≠ .eof) :
    ∃ position before rest, Text.Cut source position before ('\n' :: rest) ∧ position < token.start ∧
      ∀ other ∈ early, other.kind ≠ .comment → other.stop ≤ position := by
  obtain ⟨offset, before, cs, cut, same⟩ := exists_list_eq source
  rcases exists_feed_listFrom cut (same.symm.trans split) feeds more with ⟨contrary, _⟩ | ⟨position, before', rest, feed, _, found⟩
  · cases contrary
  · exact ⟨position, before', rest, feed, found⟩

/-- A token of the program that is no mistake begins with a character that shows. -/
theorem shows_of_program (member : token ∈ program source) (sound : token.kind ≠ .bad) : Shows source token := by
  obtain ⟨before, c, rest, cut, space, kind, _⟩ := list_isRead (mem_program.1 member).1 (wide_of_program member)
  refine ⟨before, c, rest, cut, ?_⟩
  by_contra blank
  rw [Lexeme.after_of_isBlank (Bool.of_not_eq_false blank) space] at kind
  exact sound kind

theorem solid_of_program (member : token ∈ program source) : token.kind ≠ .comment := by
  have isProgram := (mem_program.1 member).2
  rw [Symbol.isProgram, Bool.and_eq_true, bne_iff_ne] at isProgram
  exact isProgram.1

theorem EndsLine.shows (ends : token.EndsLine) (member : token ∈ program source) : Shows source token :=
  shows_of_program member (ends.keeps.sound token List.mem_cons_self).2

end Token

open Token (Whole Shows Keeps Ruled program mem_program wide_of_program)

/-- A line feed between two offsets, or a mark that ends a statement. -/
inductive Divided (source : String) (start stop : Nat) : Prop
  | feed {position : Nat} {before rest : List Char} (feed : Text.Cut source position before ('\n' :: rest))
      (behind : start ≤ position) (ahead : position < stop)
  | mark {token : Token} (member : token ∈ program source) (ends : token.EndsLine) (behind : start ≤ token.start)
      (ahead : token.stop ≤ stop)

namespace Divided

variable {source : String} {start stop : Nat} (divided : Divided source start stop)
include divided

theorem lt : start < stop := by
  cases divided with
  | feed _ behind ahead => omega
  | mark member ends behind ahead =>
      have wide := wide_of_program member
      omega

theorem later {further : Nat} (order : stop ≤ further) : Divided source start further := by
  cases divided with
  | feed feed behind ahead => exact .feed feed behind (by omega)
  | mark member ends behind ahead => exact .mark member ends behind (by omega)

/-- What ends before an offset at the start of a line ends on an earlier one. -/
theorem lt_lineStart (sound : Text.isBoundary source stop = true) (starts : Text.startsLine source stop = true) :
    start < Text.lineStart source stop := by
  cases divided with
  | feed feed behind ahead =>
      have later := Text.lt_lineStart_of_feed sound feed ahead
      omega
  | mark member ends behind ahead =>
      have wide := wide_of_program member
      obtain ⟨before, c, rest, cut, visible⟩ := ends.shows member
      have later := Text.lt_lineStart cut visible sound starts (by omega)
      omega

/-- Where nothing but a comment follows on the line, the line ends first. -/
theorem lineEnd_lt (whole : Whole source start) (trivia : Text.restIsTrivia source start = true) :
    Text.lineEnd source start < stop ∧ (Text.isBoundary source stop = true → Text.startsLine source stop = true →
      Text.lineEnd source start < Text.lineStart source stop) := by
  cases divided with
  | feed feed behind ahead =>
      have ends := Text.lineEnd_le_of_feed whole.boundary feed behind
      refine ⟨by omega, fun sound _ => ?_⟩
      have later := Text.lt_lineStart_of_feed sound feed ahead
      omega
  | mark member ends behind ahead =>
      have wide := wide_of_program member
      have shows := ends.shows member
      have bound := Token.lineEnd_le_start whole trivia (mem_program.1 member).1 (Token.solid_of_program member) shows
        wide behind
      refine ⟨by omega, fun sound starts => ?_⟩
      obtain ⟨before, c, rest, cut, visible⟩ := shows
      have later := Text.lt_lineStart cut visible sound starts (by omega)
      omega

end Divided

/-! Runs on lines. -/

section Runs

variable {source : String} {all early late run inner : List Token} {runs : List (List Token)} {nodes : List Node}
  {node : Node} {token : Token}

/-- The tokens a parser reads. -/
abbrev Token.read (source : String) : List Token := (Token.list source).filter Token.isProgram

theorem Token.mem_program_of_keeps {least : Nat} (keeps : Keeps least run) (listed : run ⊆ Token.read source) :
    ∀ token ∈ run, token ∈ program source ∧ token.kind ≠ .bad := fun token member =>
  ⟨mem_program.2 ⟨(List.mem_filter.1 (listed member)).1, (keeps.sound token member).1⟩, (keeps.sound token member).2⟩

/-- What stands earlier among the tokens ends before what stands later. -/
theorem Token.stop_le_of_infix (early late : List Token) (listed : early ++ late <:+: Token.read source) :
    ∀ first ∈ early, ∀ second ∈ late, first.stop ≤ second.start := by
  have pairs : (early ++ late).Pairwise fun a b => a.stop ≤ b.start :=
    ((Token.ordered_iff.1 (Token.list_ordered source)).2.filter _).sublist listed.sublist
  exact (List.pairwise_append.1 pairs).2.2

/-- A node that begins and ends with tokens which show. -/
structure Worded (source : String) (node : Node) : Prop where
  begins : ∃ token ∈ program source, Shows source token ∧ token.start = node.start ∧ token.stop ≤ node.stop
  ends : ∃ token ∈ program source, Shows source token ∧ node.start ≤ token.start ∧ token.stop = node.stop

theorem Worded.wide (worded : Worded source node) : node.start < node.stop := by
  obtain ⟨token, member, _, start, stop⟩ := worded.begins
  have wide := wide_of_program member
  omega

theorem Node.Stands.worded (stands : Node.Stands run node) (listed : run <:+: Token.read source) : Worded source node := by
  obtain ⟨token, head, start⟩ := Option.map_eq_some_iff.1 stands.starts
  obtain ⟨last, final, stop⟩ := Option.map_eq_some_iff.1 stands.stops
  obtain ⟨rest, rfl⟩ := List.head?_eq_some_iff.1 head
  have sound := Token.mem_program_of_keeps stands.keeps listed.subset
  have listed' : last ∈ token :: rest := List.mem_of_getLast? final
  have order : token.start ≤ last.start ∧ token.stop ≤ last.stop := by
    rcases List.mem_cons.1 listed' with rfl | later
    · exact ⟨Nat.le_refl _, Nat.le_refl _⟩
    · have apart := Token.stop_le_of_infix [token] rest listed token (by simp) last later
      have wide := wide_of_program (sound token List.mem_cons_self).1
      have wide' := wide_of_program (sound last listed').1
      exact ⟨by omega, by omega⟩
  have shows : ∀ other ∈ token :: rest, Shows source other := fun other member =>
    Token.shows_of_program (sound other member).1 (sound other member).2
  refine ⟨⟨token, (sound token List.mem_cons_self).1, shows token List.mem_cons_self, start, by omega⟩,
    ⟨last, (sound last listed').1, shows last listed', by omega, stop⟩⟩

/-- Where a run ends, and what of the tokens lies behind it. -/
theorem Node.Stands.stop_le (stands : Node.Stands run node) (listed : run ++ late <:+: Token.read source) :
    ∀ token ∈ late, node.stop ≤ token.start := by
  obtain ⟨last, final, stop⟩ := Option.map_eq_some_iff.1 stands.stops
  intro token member
  have order := Token.stop_le_of_infix _ _ listed last (List.mem_of_getLast? final) token member
  omega

theorem Token.Ruled.head (ruled : Ruled (run :: runs) inner) : ∃ rest, inner = run ++ rest := by
  cases ruled with
  | last => exact ⟨[], (List.append_nil _).symm⟩
  | trailing => exact ⟨_, rfl⟩
  | feed => exact ⟨_, rfl⟩
  | mark => exact ⟨_, rfl⟩

/-- A line feed stands behind a run that ends before a token with a line break before it. -/
theorem divided_of_newLine {others : List Token} (stands : Node.Stands run node)
    (listed : run ++ token :: others <:+: Token.read source) (feeds : token.newLine = true) (more : token.kind ≠ .eof) :
    Divided source node.stop token.start := by
  obtain ⟨last, final, stop⟩ := Option.map_eq_some_iff.1 stands.stops
  have inRun := List.mem_of_getLast? final
  have inside : run ⊆ Token.read source := fun other member => listed.subset (List.mem_append_left _ member)
  have program := (Token.mem_program_of_keeps stands.keeps inside last inRun).1
  have member : token ∈ Token.list source := (List.mem_filter.1 (listed.subset (by simp))).1
  obtain ⟨early, late, split⟩ := List.append_of_mem member
  obtain ⟨position, before, rest, feed, ahead, behind⟩ := Token.exists_feed split feeds more
  refine .feed feed ?_ ahead
  -- the last token of the run stands before the other one in the text as well
  have order := Token.stop_le_of_infix _ _ listed last inRun token List.mem_cons_self
  have wide := wide_of_program program
  have place : last ∈ early ++ token :: late := split ▸ (mem_program.1 program).1
  rcases List.mem_append.1 place with earlier | later
  · exact stop ▸ behind last earlier (Token.solid_of_program program)
  · exfalso
    have pairs := (Token.ordered_iff.1 (Token.list_ordered source)).2
    rw [split] at pairs
    rcases List.mem_cons.1 later with rfl | later
    · omega
    · have turned := (List.pairwise_cons.1 (List.pairwise_append.1 pairs).2.1).1 last later
      have room := Token.list_wide member more
      omega

/-- Nodes on lines are divided from each other. -/
theorem Token.Ruled.divided (ruled : Ruled runs inner) (listed : inner <:+: Token.read source)
    (each : List.Forall₂ Node.Stands runs nodes) : nodes.IsChain fun a b => Divided source a.stop b.start := by
  induction ruled generalizing nodes with
  | none =>
      cases each
      exact .nil
  | last run =>
      cases each with
      | cons here rest =>
          cases rest
          exact .singleton _
  | trailing run ends =>
      cases each with
      | cons here rest =>
          cases rest
          exact .singleton _
  | feed run feeds ruled ih =>
      cases each with
      | cons here rest =>
          cases rest with
          | cons there rest =>
              have behind := ih ((List.suffix_append _ _).isInfix.trans listed) (.cons there rest)
              refine .cons_cons ?_ behind
              obtain ⟨more, rfl⟩ := ruled.head
              have sound := (there.keeps.sound _ List.mem_cons_self).1
              rw [← Option.some.inj there.starts]
              refine divided_of_newLine here listed feeds fun ended => ?_
              rw [Symbol.isProgram, Token.symbol, ended] at sound
              cases sound
  | @mark run mark runs used ends others ruled ih =>
      cases each with
      | cons here rest =>
          cases rest with
          | nil => exact absurd rfl others
          | cons there rest =>
              have inside := (List.suffix_append (run ++ [mark]) used).isInfix.trans (by simpa using listed)
              refine .cons_cons ?_ (ih inside (.cons there rest))
              obtain ⟨more, rfl⟩ := ruled.head
              obtain ⟨token, head, start⟩ := Option.map_eq_some_iff.1 there.starts
              have member : mark ∈ Token.read source := listed.subset (by simp)
              have program := (Token.mem_program_of_keeps ends.keeps (by simpa using member) mark (by simp)).1
              refine .mark program ends (here.stop_le listed mark List.mem_cons_self) (start ▸ ?_)
              refine Token.stop_le_of_infix (run ++ [mark]) _ (by simpa using listed) mark (by simp) token ?_
              exact List.mem_append_left _ (List.mem_of_mem_head? head)

theorem pairwise_divided (worded : ∀ node ∈ nodes, Worded source node)
    (chain : nodes.IsChain fun a b => Divided source a.stop b.start) :
    nodes.Pairwise fun a b => Divided source a.stop b.start := by
  induction nodes with
  | nil => exact .nil
  | cons first nodes ih =>
      have rest := ih (List.forall_mem_cons.1 worded).2 chain.of_cons
      refine List.pairwise_cons.2 ⟨fun node member => ?_, rest⟩
      cases chain with
      | singleton => cases member
      | @cons_cons _ second _ divided _ =>
          rcases List.mem_cons.1 member with rfl | further
          · exact divided
          · have wide := (worded second (by simp)).wide
            have apart := ((List.pairwise_cons.1 rest).1 node further).lt
            exact divided.later (by omega)

/-- The parts of a node stand on lines between two brackets. -/
structure OnLines (source : String) (node : Node) : Prop where
  opening : ∃ token ∈ program source, Shows source token ∧ token.start = node.start ∧
    ∀ part ∈ node.parts, token.stop ≤ part.start
  closing : ∃ token ∈ program source, Shows source token ∧ token.stop = node.stop ∧
    ∀ part ∈ node.parts, part.stop ≤ token.start
  worded : ∀ part ∈ node.parts, Worded source part
  divided : node.parts.Pairwise fun a b => Divided source a.stop b.start

/-- Each node stands where its run does. -/
theorem Token.Ruled.within (ruled : Ruled runs inner) (each : List.Forall₂ Node.Stands runs nodes) :
    ∀ node ∈ nodes, ∃ run, run <:+: inner ∧ Node.Stands run node := by
  induction ruled generalizing nodes with
  | none =>
      cases each
      simp
  | last run =>
      cases each with
      | cons here rest =>
          cases rest
          exact List.forall_mem_singleton.2 ⟨run, List.infix_rfl, here⟩
  | trailing run ends =>
      cases each with
      | cons here rest =>
          cases rest
          exact List.forall_mem_singleton.2 ⟨run, (List.prefix_append _ _).isInfix, here⟩
  | feed run feeds ruled ih =>
      cases each with
      | cons here rest =>
          refine List.forall_mem_cons.2 ⟨⟨run, (List.prefix_append _ _).isInfix, here⟩, fun node member => ?_⟩
          obtain ⟨run', inside, stands⟩ := ih rest node member
          exact ⟨run', inside.trans (List.suffix_append _ _).isInfix, stands⟩
  | mark run ends others ruled ih =>
      cases each with
      | cons here rest =>
          refine List.forall_mem_cons.2 ⟨⟨run, (List.prefix_append _ _).isInfix, here⟩, fun node member => ?_⟩
          obtain ⟨run', inside, stands⟩ := ih rest node member
          exact ⟨run', inside.trans ((List.suffix_cons _ _).trans (List.suffix_append _ _)).isInfix, stands⟩

theorem Token.program_of_isMark {text : String} (listed : token ∈ Token.read source) (mark : token.isMark text = true) :
    token ∈ program source ∧ token.kind ≠ .bad := by
  have kind := (Token.isMark_iff.1 mark).1
  refine ⟨mem_program.2 ⟨(List.mem_filter.1 listed).1, ?_⟩, by simp [kind]⟩
  rw [Symbol.isProgram, Token.symbol, kind]
  rfl

theorem Node.SpellsLines.onLines {first last : String} (spells : Node.SpellsLines (Token.read source) first last node) :
    OnLines source node := by
  obtain ⟨opening, inner, closing, runs, listed, opens, closes, starts, stops, ruled, each⟩ := spells
  have inside : inner <:+: Token.read source :=
    (((List.prefix_append inner [closing]).isInfix).trans (List.suffix_cons _ _).isInfix).trans listed
  obtain ⟨member, sound⟩ := Token.program_of_isMark (listed.subset List.mem_cons_self) opens
  obtain ⟨member', sound'⟩ := Token.program_of_isMark (listed.subset (by simp)) closes
  have runOf := ruled.within each
  have worded : ∀ part ∈ node.parts, Worded source part := by
    intro part listed'
    obtain ⟨run, within, stands⟩ := runOf part listed'
    exact stands.worded (within.trans inside)
  refine ⟨⟨opening, member, Token.shows_of_program member sound, starts, fun part listed' => ?_⟩,
    ⟨closing, member', Token.shows_of_program member' sound', stops, fun part listed' => ?_⟩, worded,
    pairwise_divided worded (ruled.divided inside each)⟩
  · obtain ⟨run, within, stands⟩ := runOf part listed'
    obtain ⟨token, head, start⟩ := Option.map_eq_some_iff.1 stands.starts
    rw [← start]
    refine Token.stop_le_of_infix [opening] _ listed opening (by simp) token (List.mem_append_left _ ?_)
    exact within.subset (List.mem_of_mem_head? head)
  · obtain ⟨run, within, stands⟩ := runOf part listed'
    obtain ⟨token, final, stop⟩ := Option.map_eq_some_iff.1 stands.stops
    rw [← stop]
    refine Token.stop_le_of_infix (opening :: inner) _ listed token ?_ closing (by simp)
    exact List.mem_cons_of_mem _ (within.subset (List.mem_of_getLast? final))

end Runs

/-! Lines of a tree. -/

namespace Node

variable {all : List Token} {place top : Place} {source : String} {node : Node}

theorem Laid.inside (laid : Laid all top.node) (below : Place.Below top place) : Laid all place.node := by
  induction below with
  | here => exact laid
  | inside _ member ih => exact ih.children _ (List.mem_filter.1 member).1

theorem laid_of_mem_descendants (member : node ∈ (Tree.parse source).root.descendants) :
    Laid (Token.read source) node := by
  obtain ⟨place, met, rfl⟩ := List.mem_map.1 member
  exact Laid.inside (Tree.parse_laid source) (Place.mem_descendants.1 met)

end Node

end Go
end TraceWeave
