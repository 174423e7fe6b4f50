import TraceWeave.Proofs.Acceptance
import TraceWeave.Proofs.Go.Lines
import TraceWeave.Proofs.History
import TraceWeave.Proofs.Stretch

/-!
What a file keeps when imports are added to it. Mostly text is only put in. A lone import, though, is written anew as
a line of a block, out of its keyword and what it imports; a comment between the two is lost.
-/
namespace TraceWeave

open Go (Node Token)
open Go.Node (Annotated)
open Text (ink)

/-- Lists of a file stand among its tokens. -/
theorem Source.IsParsed.laidOut {source : Source} (parsed : source.IsParsed) :
    Node.Laid (Token.read source.text) source.root := by
  unfold Source.root
  rw [parsed]
  exact Go.Tree.parse_laid source.text

/-- Between a token that a parser reads and the next one there are only comments. -/
theorem Go.Token.comment_between {source : String} {first second : Token}
    (adjacent : [first, second] <:+: Token.read source) (filled : first.start < first.stop) :
    ∀ token ∈ Token.list source, first.stop ≤ token.start → token.start < second.start → token.kind = .comment := by
  intro token among low high
  by_contra foreign
  have read : token ∈ Token.read source := List.mem_filter.2 ⟨among, by simpa [Token.isProgram] using foreign⟩
  obtain ⟨exact, ordered⟩ := Token.ordered_iff.1 (Token.list_ordered source)
  have wide : ∀ other ∈ Token.read source, other.start ≤ other.stop := fun other member =>
    (exact other (List.mem_filter.1 member).1).1.le
  have pairs : (Token.read source).Pairwise fun a b => a.stop ≤ b.start := ordered.filter _
  obtain ⟨before, after, split⟩ := adjacent
  rw [← split] at read pairs wide
  rw [List.append_assoc, List.cons_append, List.cons_append, List.nil_append] at read pairs wide
  rw [List.pairwise_append, List.pairwise_cons, List.pairwise_cons] at pairs
  obtain ⟨_, ⟨_, later, _⟩, earlier⟩ := pairs
  have room := wide token read
  have room' := wide second (by simp)
  simp only [List.mem_append, List.mem_cons] at read
  rcases read with old | is | is | new
  · have := earlier token old first (by simp)
    omega
  · rw [is] at low
    omega
  · rw [is] at high
    omega
  · have := later token new
    omega

namespace ImportEdit

/-- The import that is to become a block: the first one, where no imports are in a block. -/
structure Lone (root declaration spec : Node) : Prop where
  first : (root.parts.filter (·.kind == .importDeclaration)).head? = some declaration
  ungrouped : ∀ other ∈ root.parts, other.kind = .importDeclaration → ∀ part ∈ other.parts, part.kind ≠ .importSpecList
  only : declaration.parts = [spec]

/-- Where the keyword of an import declaration ends. -/
def keywordStop (declaration : Node) : Nat := declaration.start + Text.size "import"

/-- A lone import is its keyword, what it imports, and comments between the two. -/
structure Worded (source : String) (declaration spec : Node) : Prop where
  kind : spec.kind = .importSpec
  keyword : Text.slice source declaration.start (keywordStop declaration) = "import"
  starts : Text.isBoundary source declaration.start = true
  between : Text.isBoundary source (keywordStop declaration) = true
  order : keywordStop declaration ≤ spec.start
  reached : Text.isBoundary source spec.start = true
  wide : spec.start ≤ spec.stop
  stops : Text.isBoundary source spec.stop = true
  stop : spec.stop = declaration.stop
  comments : ∀ token ∈ Token.list source, keywordStop declaration ≤ token.start → token.start < spec.start →
    token.kind = .comment

variable {source : Source} {declaration spec : Node} {paths : List String}

theorem Lone.listed (lone : Lone source.root declaration spec) :
    declaration ∈ source.root.children ∧ declaration ∈ source.root.parts ∧ declaration.kind = .importDeclaration := by
  obtain ⟨part, kind⟩ := List.mem_filter.1 (List.mem_of_head? lone.first)
  exact ⟨(Edit.mem_parts part).1, part, beq_iff_eq.1 kind⟩

theorem Lone.worded (lone : Lone source.root declaration spec) (parsed : source.IsParsed) :
    Worded source.text declaration spec := by
  obtain ⟨child, part, kind⟩ := lone.listed
  obtain ⟨keyword, used, spec', listed, word, start, only, bounds, stop, is⟩ :=
    (parsed.laidOut.children declaration child).imports kind
  cases lone.only.symm.trans only
  have inside : spec ∈ declaration.children := (Edit.mem_parts (by rw [lone.only]; simp)).1
  have annotated : Annotated (Token.Clear source.text) declaration := parsed.annotated.children declaration child
  have shaped := (annotated.children spec inside).shaped
  -- the keyword among the tokens
  have member : keyword ∈ Token.list source.text := (List.mem_filter.1 (listed.subset List.mem_cons_self)).1
  obtain ⟨isWord, text⟩ := Bool.and_eq_true_iff.1 word
  have kind' : keyword.kind = .word := beq_iff_eq.1 isWord
  have program : keyword ∈ Token.program source.text :=
    Token.mem_program.2 ⟨member, by simp [Token.symbol, Go.Symbol.isProgram, kind']⟩
  have spelled : Text.slice source.text keyword.start keyword.stop = "import" :=
    (Token.slice_of_program program).trans (beq_iff_eq.1 text)
  obtain ⟨clear, clear'⟩ := Token.clear_of_mem member
  have room := Token.wide_of_program program
  have size := Text.size_slice clear.boundary clear'.boundary (Nat.le_of_lt room)
  have ends : keyword.stop = keywordStop declaration := by rw [keywordStop, ← start, ← spelled, size]
  -- what stands behind it
  obtain ⟨first, head, first_start⟩ := Option.map_eq_some_iff.1 bounds.starts
  obtain ⟨rest, rfl⟩ := List.head?_eq_some_iff.1 head
  have behind := Token.stop_le_of_infix [keyword] (first :: rest) listed keyword (by simp) first List.mem_cons_self
  refine ⟨?_, ?_, ?_, ?_, by omega, shaped.starts.boundary, shaped.chain.le, shaped.stops.boundary, stop, ?_⟩
  · exact is.resolve_right (lone.ungrouped declaration part kind spec (by rw [lone.only]; simp))
  · rw [← ends, ← start]
    exact spelled
  · exact start ▸ clear.boundary
  · exact ends ▸ clear'.boundary
  · intro token among low high
    have adjacent : [keyword, first] <:+: Token.read source.text :=
      (List.prefix_append [keyword, first] rest).isInfix.trans listed
    exact Token.comment_between adjacent room token among (by omega) (by omega)

/-- The first import is a lone one if no imports are in a block. -/
theorem lone_of_first (parsed : source.IsParsed) {others : List Node}
    (found : source.root.parts.filter (·.kind == .importDeclaration) = declaration :: others)
    (ungrouped : (declaration :: others).findSome? (fun item => item.parts.find? (·.kind == .importSpecList)) = none)
    (listed : spec ∈ declaration.parts) : Lone source.root declaration spec := by
  have first : (source.root.parts.filter (·.kind == .importDeclaration)).head? = some declaration := by
    rw [found]
    rfl
  obtain ⟨part, kind⟩ := List.mem_filter.1 (List.mem_of_head? first)
  obtain ⟨_, _, only, _, _, _, alone, _⟩ :=
    (parsed.laidOut.children declaration (Edit.mem_parts part).1).imports (beq_iff_eq.1 kind)
  cases List.mem_singleton.1 (alone ▸ listed)
  refine ⟨first, fun other part kind list member grouped => ?_, alone⟩
  have inside : other ∈ declaration :: others := found ▸ List.mem_filter.2 ⟨part, beq_iff_eq.2 kind⟩
  exact List.find?_eq_none.1 (List.findSome?_eq_none_iff.1 ungrouped other inside) list member (beq_iff_eq.2 grouped)

/-- Text is put in, or a lone import is written anew. -/
theorem ofPaths_cases (parsed : source.IsParsed) (paths : List String) :
    (∀ edit ∈ ofPaths source.text source.root paths, edit.start = edit.stop) ∨
      ∃ declaration spec before after, Lone source.root declaration spec ∧ ofPaths source.text source.root paths =
        [Edit.replaceNode declaration ("import (\n" ++ (before ++ spec.text source.text ++ after) ++ ")")] := by
  unfold ofPaths
  split
  · exact .inl (by simp)
  · unfold forPaths
    dsimp only
    split
    · rename_i list found
      left
      unfold intoBlock
      dsimp only
      intro edit planned
      split at planned
      · split at planned
        · cases List.mem_singleton.1 planned
          rfl
        · cases List.mem_singleton.1 planned
          rfl
      · obtain ⟨anchor, _, rfl⟩ := List.mem_map.1 planned
        rfl
    · rename_i ungrouped
      split
      · rename_i declaration others found
        unfold intoLone
        split
        · exact .inl (by simp)
        · rename_i spec present
          right
          have lone := lone_of_first parsed found (found ▸ ungrouped) (List.mem_of_find?_eq_some present)
          dsimp only
          -- the line of the import is one of those that make up the block
          generalize sorted : List.mergeSort _ _ = lines
          have listed : (specPath source.text spec, "\t" ++ spec.text source.text ++ "\n") ∈ lines := by
            rw [← sorted, List.mem_mergeSort]
            exact List.mem_append_right _ (List.mem_singleton_self _)
          obtain ⟨earlier, later, rfl⟩ := List.append_of_mem listed
          refine ⟨declaration, spec, String.join (earlier.map (·.2)) ++ "\t", "\n" ++ String.join (later.map (·.2)), lone, ?_⟩
          rw [List.map_append, List.map_cons, String.join_append, String.join_cons]
          simp only [String.append_assoc]
      · split
        · exact .inl (List.forall_mem_singleton.2 rfl)
        · exact .inl (by simp)

/-- What is kept of a lone import that is written anew. -/
theorem Worded.keepsInk {source text before after : String} (worded : Worded source declaration spec)
    (performed : Edit.perform source
      [Edit.replaceNode declaration ("import (\n" ++ (before ++ spec.text source ++ after) ++ ")")] = .ok text) :
    (ink (Text.slice source 0 (keywordStop declaration)) ++
      ink (Text.slice source spec.start (Text.size source))).Sublist (ink text) := by
  have whole := Edit.text_of_single performed
  have front := Text.slice_append (Text.isBoundary_zero source) worded.starts worded.between (Nat.zero_le _)
    (Nat.le_add_right _ _)
  have rear := Text.slice_append worded.reached worded.stops (Text.isBoundary_size source) worded.wide
    (Text.le_size_of_isBoundary worded.stops)
  rw [whole, ← front, ← rear, worded.keyword]
  change List.Sublist _ (ink (Text.slice source 0 declaration.start ++ _ ++ Text.slice source declaration.stop _))
  rw [← worded.stop]
  have opened : "import (\n" = "import" ++ " (\n" := by decide
  simp only [opened, Edit.replaceNode, Text.ink_append, Node.text, List.append_assoc]
  refine (List.Sublist.refl _).append ((List.Sublist.refl _).append ?_)
  refine (List.sublist_append_of_sublist_right ?_)
  refine (List.sublist_append_of_sublist_right ?_)
  refine (List.Sublist.refl _).append ?_
  exact List.sublist_append_of_sublist_right (List.sublist_append_right _ _)

/-- What a file keeps when imports are added. Where a lone import becomes a block, all is kept but what stands between
its keyword and what it imports, and this is comments; where nothing but blanks stands there, and everywhere else, all
is kept. -/
theorem ofPaths_keepsInk (parsed : source.IsParsed) (paths : List String) :
    ∃ text, Edit.perform source.text (ofPaths source.text source.root paths) = .ok text ∧
      (∀ declaration spec, Lone source.root declaration spec →
        (ink (Text.slice source.text 0 (keywordStop declaration)) ++
          ink (Text.slice source.text spec.start (Text.size source.text))).Sublist (ink text) ∧
        ∀ token ∈ Token.list source.text, keywordStop declaration ≤ token.start → token.start < spec.start →
          token.kind = .comment) ∧
      ((∀ declaration spec, Lone source.root declaration spec →
          Text.isAllBlank (Text.slice source.text (keywordStop declaration) spec.start) = true) →
        (ink source.text).Sublist (ink text)) := by
  obtain ⟨changed, applied⟩ := ofPaths_accepted parsed paths
  have performed := Source.perform_of_apply applied
  -- the text in three parts
  have parts : ∀ declaration spec, Worded source.text declaration spec → ink source.text =
      ink (Text.slice source.text 0 (keywordStop declaration)) ++
        ink (Text.slice source.text (keywordStop declaration) spec.start) ++
          ink (Text.slice source.text spec.start (Text.size source.text)) := by
    intro declaration spec worded
    have size := Text.le_size_of_isBoundary worded.reached
    rw [← Text.ink_append, ← Text.ink_append,
      Text.slice_append (Text.isBoundary_zero _) worded.between worded.reached (Nat.zero_le _) worded.order,
      Text.slice_append (Text.isBoundary_zero _) worded.reached (Text.isBoundary_size _) (Nat.zero_le _) size,
      Text.slice_whole]
  refine ⟨changed.text, performed, ?_⟩
  rcases ofPaths_cases parsed paths with points | ⟨declaration, spec, before, after, lone, only⟩
  · have kept : (ink source.text).Sublist (ink changed.text) :=
      Edit.perform_retains (fun edit planned => Edit.retains_of_point (points edit planned)) performed
    refine ⟨fun declaration spec lone => ?_, fun _ => kept⟩
    have worded := lone.worded parsed
    refine ⟨List.Sublist.trans ?_ kept, worded.comments⟩
    rw [parts declaration spec worded]
    exact (List.sublist_append_left _ _).append (List.Sublist.refl _)
  · rw [only] at performed
    have worded := lone.worded parsed
    have kept := worded.keepsInk performed
    constructor
    · intro other spec' lone'
      cases Option.some.inj (lone.first.symm.trans lone'.first)
      cases List.cons.inj (lone.only.symm.trans lone'.only) |>.1
      exact ⟨kept, worded.comments⟩
    · intro blank
      rw [parts declaration spec worded, Text.ink_of_isAllBlank (blank declaration spec lone), List.append_nil]
      exact kept

/-- A lone import with a comment. -/
def commentedImport : Source := .load "p.go" "package p\nimport /*c*/ \"b\"\n"

theorem ofPaths_keepsInk_commentedImport : commentedImport.IsParsed ∧ ∃ text,
    Edit.perform commentedImport.text (ofPaths commentedImport.text commentedImport.root ["a"]) = .ok text ∧
      ∀ declaration spec, Lone commentedImport.root declaration spec →
        (ink (Text.slice commentedImport.text 0 (keywordStop declaration)) ++
          ink (Text.slice commentedImport.text spec.start (Text.size commentedImport.text))).Sublist (ink text) :=
  have parsed : commentedImport.IsParsed := Source.isParsed_load _ _
  have ⟨text, performed, lone, _⟩ := ofPaths_keepsInk parsed ["a"]
  ⟨parsed, text, performed, fun declaration spec found => (lone declaration spec found).1⟩

theorem ofPaths_commentedImport : ofPaths commentedImport.text commentedImport.root ["a"] =
    [⟨10, 26, "import (\n\t\"a\"\n\t\"b\"\n)"⟩] := by
  have stands : (commentedImport.root.parts.filter (·.kind == .importDeclaration)).length = 1 ∧
      ((commentedImport.root.parts.filter (·.kind == .importDeclaration)).head?.any fun declaration =>
        declaration.start == 10 && declaration.stop == 26 && (declaration.parts.find? (·.kind == .importSpecList)).isNone &&
          (declaration.parts.find? (·.kind == .importSpec)).any fun spec =>
            specPath commentedImport.text spec == "b" && spec.text commentedImport.text == "\"b\"") = true := by
    decide +kernel
  obtain ⟨declaration, found⟩ := List.length_eq_one_iff.1 stands.1
  rw [found] at stands
  simp only [List.head?_cons, Option.any_some, Bool.and_eq_true, beq_iff_eq, Option.isNone_iff_eq_none,
    Option.any_eq_true] at stands
  obtain ⟨_, ⟨⟨start, stop⟩, bare⟩, spec, only, path, text⟩ := stands
  have paths : sortedSet ["a"] = ["a"] := by decide +kernel
  have order : List.mergeSort [("a", line "a"), ("b", "\t\"b\"\n")] (fun a b => decide (a.1 ≤ b.1)) =
      [("a", line "a"), ("b", "\t\"b\"\n")] := List.mergeSort_of_pairwise (by decide +kernel)
  have one : "\t" ++ "\"b\"" ++ "\n" = "\t\"b\"\n" := by decide
  unfold ofPaths forPaths
  rw [if_neg (by simp), paths, found]
  dsimp only
  rw [List.findSome?_cons, bare, List.findSome?_nil]
  unfold intoLone
  rw [only]
  simp only [path, text, one, List.map_cons, List.map_nil, List.cons_append, List.nil_append, order]
  rw [Edit.replaceNode, start, stop]
  decide +kernel

/-- The comment is lost. -/
theorem loneComment_isLost : ∃ text,
    Edit.perform commentedImport.text (ofPaths commentedImport.text commentedImport.root ["a"]) = .ok text ∧
      ¬ (ink commentedImport.text).Sublist (ink text) := by
  rw [ofPaths_commentedImport]
  refine ⟨"package p\nimport (\n\t\"a\"\n\t\"b\"\n)\n", ?_, ?_⟩
  · decide +kernel
  · decide +kernel

end ImportEdit
end TraceWeave
