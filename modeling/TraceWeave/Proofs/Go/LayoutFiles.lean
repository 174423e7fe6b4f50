import TraceWeave.Proofs.Go.LayoutLines

/-! Lists among the tokens of whole files, and with the comments of a text in their places. -/
namespace TraceWeave.Go

namespace Grammar

open Reader
open Node (Laid NoList)
open Token (keeps_nil keeps_brackets plain_of_kind)

variable {all : List Token}

theorem stays_importPath : Takes all importPath (Stay (Laid all)) := by
  unfold importPath
  refine takes_peek fun token => ?_
  split
  · rename_i kind string
    have known : token.kind ≠ .mark ∧ token.kind ∉ [TokenKind.bad, .comment, .eof] ∧ NoList kind := by
      unfold stringKind? at string
      split at string <;> cases string
      all_goals
        rename_i is
        simp [is]
    refine sees_pass ((plain_of_kind known.1 known.2.1).keeps (keeps_nil _)) (stays_pure ?_)
    exact (Node.laid_withRole _).2 (Node.laid_leaf known.2.2 token)
  · exact takes_stuck

theorem stays_importSpec : Takes all importSpec (Stay (Laid all)) := by
  unfold importSpec
  refine takes_peek fun token => ?_
  extract_lets jump
  have joins : ∀ name : List Node, LaidAll all name → Takes all (jump name) (Stay (Laid all)) := by
    intro name known
    refine stays_importPath.next fun path known' => stays_pure ((Node.laid_build (by simp)).2 ?_)
    exact List.forall_mem_append.2 ⟨known, by simpa using known'⟩
  split
  · rename_i dot
    exact sees_pass (keeps_mark dot (by decide)) (.pass (joins _ (by simp)))
  split
  · rename_i word
    refine sees_pass (keeps_word (beq_iff_eq.1 word)) (.pass (joins _ ?_))
    split
    · simp
    · simp
  · exact .pass (joins _ (by simp)).here

theorem ends_importPath : Takes all importPath (Ends Node.stop fun _ => True) := by
  unfold importPath
  refine takes_peek fun token => ?_
  split
  · exact sees_take (.pure ⟨rfl, trivial⟩)
  · exact takes_stuck

/-- An import begins with the token that was looked at, be it a name or the path, and ends with the path. -/
theorem takes_importSpec : Takes all importSpec fun used spec => Node.Line all used spec ∧ spec.kind = .importSpec := by
  have bounded : Takes all importSpec fun used spec => Bounded used spec ∧ spec.kind = .importSpec := by
    unfold importSpec
    refine takes_peek fun token => ?_
    extract_lets jump
    have joins : ∀ name, Takes all (jump name) fun used spec => Closes token.start used spec ∧ spec.kind = .importSpec :=
      fun name => ends_importPath.last fun used path ends => ⟨⟨ends.1, rfl, rfl⟩, rfl⟩
    clear_value jump
    split
    · exact sees_take (.pass ((joins _).mono fun _ _ found => ⟨.of_closes found.1, found.2⟩))
    split
    · exact sees_take (.pass ((joins _).mono fun _ _ found => ⟨.of_closes found.1, found.2⟩))
    · refine .pass (((joins []).first fun used spec found => ?_).mono fun used spec found => ?_)
      · rintro rfl
        cases found.1.1
      · obtain ⟨⟨⟨stops, starts, part⟩, is⟩, head⟩ := found
        refine ⟨⟨⟨?_, stops⟩, part⟩, is⟩
        rw [Token.startOf?, head, starts]
        rfl
  refine (stays_importSpec.both bounded).mono ?_
  rintro used node ⟨⟨keeps, laid⟩, ⟨bounds, part⟩, is⟩
  exact ⟨{ bounds with keeps, part, laid }, is⟩

/-- The imports between two parentheses, as a list of their own. -/
theorem laid_importSpecList {opening closing : Token} {inner : List Token} {specs : List Node}
    (listed : opening :: (inner ++ [closing]) <:+: all) (opens : opening.isMark "(" = true)
    (closes : closing.isMark ")" = true)
    (lines : ∃ runs, Token.Ruled runs inner ∧ List.Forall₂ (fun used spec => Node.Line all used spec ∧ spec.kind = .importSpec)
      runs specs) : Laid all (.build .importSpecList opening.start closing.stop specs) := by
  obtain ⟨runs, ruled, each⟩ := lines
  have each := each.imp fun _ _ found => found.1
  exact .intro nofun nofun nofun (fun _ => Node.spellsLines_of_each listed opens closes ruled each) nofun
    (forall_of_forall₂ each fun _ _ line => line.laid)

/-- What is taken for an import declaration: the keyword, and an import or a list of them. -/
theorem takes_importDeclaration : Takes all importDeclaration fun used node => ∃ keyword rest part,
    used = keyword :: rest ∧ keyword.isWord "import" = true ∧ Token.Keeps 1 rest ∧ Node.Bounds rest part ∧
      (part.kind = .importSpec ∨ part.kind = .importSpecList) ∧ Laid all part ∧
        node = .build .importDeclaration keyword.start part.stop [part] := by
  refine (takes_takeIf _).token fun keyword word => takes_nextIs fun opening grouped is => ?_
  split
  · rename_i yes
    have lines : Sees all opening (do
        let opening ← take
        let specs ← lineList ")" importSpec
        let closing ← mark ")"
        return Node.build .importDeclaration keyword.start closing.stop
          [.build .importSpecList opening.start closing.stop specs]) fun used node => ∃ inner closing specs,
        used = opening :: (inner ++ [closing]) ∧ closing.isMark ")" = true ∧
          (∃ runs, Token.Ruled runs inner ∧ List.Forall₂ (fun used spec => Node.Line all used spec ∧ spec.kind = .importSpec)
            runs specs) ∧ node = Node.build .importDeclaration keyword.start closing.stop
              [.build .importSpecList opening.start closing.stop specs] := by
      have each := takes_lineList ")" (@takes_importSpec all) fun _ _ found => ⟨found.1.keeps, found.1.ne_nil⟩
      refine sees_take (each.bind fun inner specs ruled => (takes_mark _).token fun closing closes => .pure ?_)
      exact ⟨inner, closing, specs, rfl, closes, ruled, rfl⟩
    refine lines.listed.mono ?_
    rintro used node ⟨listed, inner, closing, specs, rfl, closes, each, rfl⟩
    refine ⟨keyword, _, _, rfl, word, ?_, ⟨rfl, ?_⟩, .inr rfl, laid_importSpecList listed (is yes) closes each, rfl⟩
    · obtain ⟨runs, ruled, each⟩ := each
      have keeps : ∀ run ∈ runs, Token.Keeps 1 run :=
        ((List.forall₂_and_left runs specs).1 (each.imp fun _ _ found => ⟨found.1.keeps, found.1.laid⟩)).1
      exact keeps_brackets (is yes) closes (by decide) (ruled.keeps keeps) (keeps_nil _)
    · rw [Token.stopOf?, ← List.cons_append, List.getLast?_concat]
      rfl
  · refine (takes_importSpec.last fun used spec found => ?_).here
    exact ⟨keyword, used, spec, rfl, word, found.1.keeps, found.1.toBounds, .inl found.2, found.1.laid, rfl⟩

theorem stays_importDeclaration : Takes all importDeclaration (Stay (Laid all)) := by
  refine takes_importDeclaration.listed.mono ?_
  rintro _ _ ⟨listed, keyword, used, part, rfl, word, keeps, bounds, is, laid, rfl⟩
  have isPart : (part.kind.isNamed && part.kind != .comment) = true := by
    rcases is with is | is
    · rw [is]
      rfl
    · rw [is]
      rfl
  have parts : (Node.build .importDeclaration keyword.start part.stop [part]).parts = [part] :=
    List.filter_eq_self.2 (List.forall_mem_singleton.2 isPart)
  have kind : keyword.kind = .word := beq_iff_eq.1 (Bool.and_eq_true_iff.1 word).1
  refine ⟨(Token.plain_of_word kind).keeps keeps, ?_⟩
  exact .intro nofun nofun nofun nofun (fun _ => ⟨keyword, used, part, listed, word, rfl, parts, bounds, rfl, is⟩)
    (List.forall_mem_singleton.2 laid)

theorem stays_packageClause : Takes all packageClause (Stay (Laid all)) :=
  (stays_keyword _).next fun _ _ => stays_word.next fun _ _ => stays_pure (by simp)

variable {g : Grammar} (lays : g.LaysOut all)
include lays

theorem stays_functionBody : Takes all g.functionBody (Stay (LaidAll all)) := by
  unfold functionBody
  refine (looks_nextIs _ _).asks fun braces => ?_
  split
  · exact lays.block.stays.next fun body known => stays_pure (by simpa using known)
  · exact stays_pure (by simp)

theorem stays_functionDeclaration : Takes all g.functionDeclaration (Stay (Laid all)) := by
  unfold functionDeclaration
  refine (stays_keyword _).next fun head _ => stays_word.next fun name _ => (looks_nextIs _ _).asks fun bracket => ?_
  extract_lets jump
  have joins : ∀ generic : List Node, LaidAll all generic → Takes all (jump generic) (Stay (Laid all)) := by
    intro generic known₁
    refine (stays_signature lays _).next fun found known₂ => (stays_functionBody lays).next fun body known₃ => ?_
    refine stays_pure ((Node.laid_build (by simp)).2 (List.forall_mem_cons.2 ⟨by simp, ?_⟩))
    exact List.forall_mem_append.2 ⟨List.forall_mem_append.2 ⟨known₁, known₂⟩, known₃⟩
  split
  · exact (stays_typeParameters lays).next fun list known₁ => .pass (joins _ (by simpa using known₁))
  · exact .pass (joins _ (by simp))

theorem stays_methodDeclaration : Takes all g.methodDeclaration (Stay (Laid all)) := by
  refine (stays_keyword _).next fun head _ => (takes_parameters lays).stays.next fun receiver known => ?_
  refine stays_word.next fun name _ => (stays_signature lays _).next fun found known₁ => ?_
  refine (stays_functionBody lays).next fun body known₂ => stays_pure ((Node.laid_build (by simp)).2 ?_)
  refine List.forall_mem_cons.2 ⟨by simpa using known, List.forall_mem_cons.2 ⟨by simp, ?_⟩⟩
  exact List.forall_mem_append.2 ⟨known₁, known₂⟩

theorem stays_fileItem : Takes all g.fileItem (Stay (Laid all)) := by
  unfold fileItem
  refine looks_peek.asks fun token => looks_peekSecond.asks fun second => ?_
  split
  · exact stays_packageClause
  split
  · exact stays_importDeclaration
  split
  · split
    · exact (stays_methodDeclaration lays).either lays.statement.line
    · exact stays_functionDeclaration lays
  · exact lays.statement.line

theorem laid_fileItems (rounds : Nat) {tokens : List Token} {items : List Node} (inside : tokens <:+ all)
    (found : g.fileItems rounds tokens = .ok items) : LaidAll all items := by
  induction rounds generalizing tokens items with
  | zero =>
      cases found
      simp
  | succ rounds ih =>
      unfold fileItems at found
      split at found
      · cases found
        simp
      split at found
      · rename_i item rest outcome
        have read : Takes all (do
            let item ← g.fileItem
            terminator
            return item) (Stay (Laid all)) :=
          (stays_fileItem lays).next fun item known => stays_terminator.next fun _ _ => stays_pure known
        obtain ⟨used, rfl, known⟩ := read tokens inside trivial item rest outcome
        cases others : g.fileItems rounds rest with
        | error trouble => rw [others] at found; cases found
        | ok later =>
            rw [others] at found
            cases found
            exact List.forall_mem_cons.2 ⟨known.2, ih ((List.suffix_append _ _).trans inside) others⟩
      · cases found

omit lays in
theorem nested_laysOut (all : List Token) (depth : Nat) : (nested depth).LaysOut all := by
  induction depth with
  | zero => exact ⟨fun _ => takes_stuck, fun _ => takes_stuck, takes_stuck, takes_stuck, takes_stuck⟩
  | succ depth ih =>
      exact ⟨takes_typeStep ih, takes_expressionStep ih, takes_literalValueStep ih, takes_blockStep ih,
        takes_statementStep ih⟩

end Grammar

namespace Node

variable {all : List Token} {node : Node} {comments : List Node}

/-- A test that fails on one list only keeps what is on the other. -/
theorem filter_merge (left right : List Node) (test : Node → Bool) (fails : ∀ node ∈ right, test node = false) :
    (merge left right).filter test = left.filter test := by
  fun_induction merge left right with
  | case1 right =>
      rw [List.filter_nil, List.filter_eq_nil_iff]
      intro node member
      simp [fails node member]
  | case2 left _ => rfl
  | case3 a left b right before ih =>
      rw [List.filter_cons_of_neg (by simp [fails b]), ih fun node member => fails node (by simp [member])]
  | case4 a left b right before ih => rw [List.filter_cons, List.filter_cons, ih fails]

/-- Comments are leaves without a role. -/
def AreComments (comments : List Node) : Prop :=
  ∀ comment ∈ comments, comment.kind = .comment ∧ comment.role = none ∧ comment.children = []

theorem AreComments.filter (are : AreComments comments) (test : Node → Bool) : AreComments (comments.filter test) :=
  fun comment member => are comment (List.mem_filter.1 member).1

theorem parts_withComments (are : AreComments comments) : (node.withComments comments).parts =
    node.parts.map fun child => child.withComments (comments.filter child.covers) := by
  rw [parts, children_withComments, filter_merge, parts, List.filter_map]
  · simp [Function.comp_def]
  · intro comment member
    simp [(are comment (List.mem_filter.1 member).1).1]

theorem childrenAs_withComments (are : AreComments comments) (role : Role) :
    (node.withComments comments).childrenAs role =
      (node.childrenAs role).map fun child => child.withComments (comments.filter child.covers) := by
  rw [childrenAs, children_withComments, filter_merge, childrenAs, List.filter_map]
  · simp [Function.comp_def]
  · intro comment member
    simp [(are comment (List.mem_filter.1 member).1).2.1]

@[simp] theorem span_withComments (comments : List Node) (node : Node) :
    (node.withComments comments).span = node.span := by simp [span]

theorem outline_withComments (are : AreComments comments) : (node.withComments comments).outline = node.outline := by
  have type : (node.withComments comments).child? .type =
      (node.child? .type).map fun child => child.withComments (comments.filter child.covers) := by
    rw [child?, children_withComments, find?_merge, List.find?_map]
    · simp only [child?, Function.comp_def, role_withComments]
    · intro comment member
      simp [(are comment (List.mem_filter.1 member).1).2.1]
  rw [outline, childrenAs_withComments are, type]
  simp [outline, Function.comp_def]

theorem Stands.withComments {used : List Token} (stands : Stands used node) (comments : List Node) :
    Stands used (node.withComments comments) :=
  { starts := by simpa using stands.starts, stops := by simpa using stands.stops, keeps := stands.keeps }

theorem SpellsLines.withComments {first last : String} (spells : SpellsLines all first last node)
    (are : AreComments comments) : SpellsLines all first last (node.withComments comments) := by
  obtain ⟨opening, inner, closing, runs, listed, opens, closes, starts, stops, ruled, each⟩ := spells
  refine ⟨opening, inner, closing, runs, listed, opens, closes, by simpa using starts, by simpa using stops, ruled, ?_⟩
  rw [parts_withComments are, List.forall₂_map_right_iff]
  exact each.imp fun _ _ stands => stands.withComments _

/-- Comments leave the lists of a tree as they are. -/
theorem Laid.withComments (laid : Laid all node) (are : AreComments comments) : Laid all (node.withComments comments) := by
  induction laid generalizing comments with
  | @intro node arguments parameters statements specs imports children ih =>
      refine .intro (fun kind => ?_) (fun kind => ?_) (fun kind => ?_) (fun kind => ?_) (fun kind => ?_) fun child member => ?_
      · rw [kind_withComments] at kind
        obtain ⟨opening, inner, closing, runs, enclosed, lined, covers⟩ := arguments kind
        refine ⟨opening, inner, closing, runs, by simpa using enclosed, lined, ?_⟩
        rw [parts_withComments are, List.forall₂_map_right_iff]
        exact covers.imp fun run part known => ⟨known.keeps, by simpa using known.starts, by simpa using known.stops⟩
      · rw [kind_withComments] at kind
        obtain ⟨opening, inner, closing, runs, entries, enclosed, lined, each, same⟩ := parameters kind
        refine ⟨opening, inner, closing, runs, entries, by simpa using enclosed, lined, each, ?_⟩
        rw [parts_withComments are, List.map_map, ← same]
        exact List.map_congr_left fun part _ => outline_withComments (are.filter _)
      · rw [kind_withComments] at kind
        exact (statements kind).withComments are
      · rw [kind_withComments] at kind
        exact (specs kind).withComments are
      · rw [kind_withComments] at kind
        obtain ⟨keyword, used, part, listed, word, start, same, bounds, stop, is⟩ := imports kind
        refine ⟨keyword, used, part.withComments (comments.filter part.covers), listed, word, by simpa using start, ?_,
          ⟨by simpa using bounds.starts, by simpa using bounds.stops⟩, by simpa using stop, by simpa using is⟩
        rw [parts_withComments are, same]
        rfl
      · rw [children_withComments, mem_merge] at member
        rcases member with inner | own
        · obtain ⟨original, place, rfl⟩ := List.mem_map.1 inner
          exact ih original place (are.filter _)
        · obtain ⟨kind, _, leaf⟩ := are child (List.mem_filter.1 own).1
          obtain ⟨kind', role, start, stop, children⟩ := child
          cases kind
          cases leaf
          exact laid_of_noList (by simp) (by simp)

end Node

/-- The lists in the tree of a text stand among its tokens. -/
theorem Tree.parse_laid (source : String) :
    Node.Laid ((Token.list source).filter Token.isProgram) (parse source).root := by
  unfold parse
  dsimp only
  rw [List.partition_eq_filter_filter]
  dsimp only
  split
  · rename_i items found
    have known := Grammar.laid_fileItems (Grammar.nested_laysOut _ _) _ (List.suffix_refl _) found
    have laid : Node.Laid ((Token.list source).filter Token.isProgram)
        ⟨.sourceFile, none, 0, Text.size source, items⟩ := Node.laid_of_noList (by simp) known
    dsimp only
    split
    · exact laid
    · refine laid.withComments fun comment member => ?_
      obtain ⟨token, _, rfl⟩ := List.mem_map.1 member
      exact ⟨rfl, rfl, rfl⟩
  · exact Node.laid_of_noList (by simp) (by simp)

end TraceWeave.Go
