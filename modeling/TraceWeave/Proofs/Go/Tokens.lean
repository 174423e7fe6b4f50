import TraceWeave.Proofs.Go.Reading
import TraceWeave.Proofs.Text.Offset

/-!
Tokens of a text. They stand in order, begin and end between characters, and none of them begins or
ends inside a comment.
-/
namespace TraceWeave.Go

namespace Token

/-- An offset between two characters that does not lie inside a comment. -/
structure Clear (source : String) (offset : Nat) : Prop where
  boundary : Text.isBoundary source offset = true
  outside : ∀ comment ∈ list source, comment.kind = .comment → ¬ (comment.start < offset ∧ offset < comment.stop)

/-- Whether a token is part of the program. -/
def isProgram (token : Token) : Bool := !(token.kind == .comment)

variable {sound : Nat → Prop} {limit offset : Nat} {source : String} {newLine : Bool} {before cs : List Char}
  {tokens : List Token} {token : Token}

/-- Order, seen from pairs of tokens. -/
theorem ordered_iff : Ordered sound limit tokens ↔
    (∀ token ∈ tokens, token.Exact sound ∧ token.stop ≤ limit) ∧
      tokens.Pairwise fun first second => first.stop ≤ second.start := by
  induction tokens with
  | nil => simp [Ordered]
  | cons token tokens ih =>
      rw [Ordered, ih, List.pairwise_cons, List.forall_mem_cons]
      constructor
      · rintro ⟨exact, bound, each, pairs⟩
        have reach : front limit tokens ≤ limit := (ih.2 ⟨each, pairs⟩).front_le
        refine ⟨⟨⟨exact, Nat.le_trans bound reach⟩, each⟩, ?_, pairs⟩
        intro other member
        -- the front is where the first of the others begins
        cases tokens with
        | nil => cases member
        | cons second tokens =>
            refine Nat.le_trans bound ?_
            cases member with
            | head => exact Nat.le_refl _
            | tail _ later =>
                have order := (List.pairwise_cons.1 pairs).1 other later
                exact Nat.le_trans (each second (by simp)).1.le order
      · rintro ⟨⟨⟨exact, reach⟩, each⟩, apart, pairs⟩
        refine ⟨exact, ?_, each, pairs⟩
        cases tokens with
        | nil => exact reach
        | cons second tokens => exact apart second (by simp)

theorem listFrom_ordered (cut : Text.Cut source offset before cs) :
    Ordered (fun offset => Text.isBoundary source offset = true) (Text.size source) (listFrom offset newLine cs) ∧
      offset ≤ front (Text.size source) (listFrom offset newLine cs) := by
  fun_induction listFrom offset newLine cs generalizing before with
  | case1 offset newLine =>
      exact ⟨⟨⟨cut.isBoundary, cut.isBoundary, rfl⟩, cut.le_size, trivial⟩, Nat.le_refl _⟩
  | case2 offset newLine c rest space ih =>
      have further : Text.Cut source (offset + Text.byteCount [c]) (before ++ [c]) rest := cut.step
      obtain ⟨ordered, bound⟩ := ih further
      exact ⟨ordered, Nat.le_trans (Nat.le_add_right _ _) bound⟩
  | case3 offset newLine c rest space kind more found lexeme stop =>
      rename_i ih
      have parts : Text.Cut source offset before (lexeme ++ rest.drop more) := by
        change Text.Cut source offset before (c :: (rest.take more ++ rest.drop more))
        rwa [List.take_append_drop]
      have further : Text.Cut source stop (before ++ lexeme) (rest.drop more) := parts.step
      obtain ⟨ordered, bound⟩ := ih further
      refine ⟨⟨⟨cut.isBoundary, further.isBoundary, ?_⟩, bound, ordered⟩, Nat.le_refl _⟩
      rw [Text.size_ofList]

/-- Every token but the last one takes room. -/
theorem listFrom_wide (member : token ∈ listFrom offset newLine cs) (more : token.kind ≠ .eof) :
    token.start < token.stop := by
  fun_induction listFrom offset newLine cs with
  | case1 offset newLine =>
      cases List.mem_singleton.1 member
      exact absurd rfl more
  | case2 offset newLine c rest space ih => exact ih member
  | case3 offset newLine c rest space kind count found lexeme stop ih =>
      rcases List.mem_cons.1 member with rfl | later
      · have room : 0 < c.utf8Size := c.utf8Size_pos
        change offset < offset + (c.utf8Size + Text.byteCount (rest.take count))
        omega
      · exact ih later

theorem list_ordered (source : String) :
    Ordered (fun offset => Text.isBoundary source offset = true) (Text.size source) (list source) := by
  have start := Text.cut_start source
  unfold list
  split
  · rename_i c rest whole
    rw [whole] at start
    split
    · have further : Text.Cut source (0 + Text.byteCount [c]) ([] ++ [c]) rest := start.step
      rw [Nat.zero_add] at further
      exact (listFrom_ordered further).1
    · exact (listFrom_ordered start).1
  · rename_i whole
    rw [whole] at start
    exact (listFrom_ordered start).1

theorem list_wide (member : token ∈ list source) (more : token.kind ≠ .eof) : token.start < token.stop := by
  unfold list at member
  split at member
  · split at member
    · exact listFrom_wide member more
    · exact listFrom_wide member more
  · exact listFrom_wide member more

/-- Tokens do not overlap. -/
theorem list_apart {other : Token} (member : token ∈ list source) (member' : other ∈ list source) :
    token = other ∨ token.stop ≤ other.start ∨ other.stop ≤ token.start := by
  have pairs := (ordered_iff.1 (list_ordered source)).2
  have apart : (list source).Pairwise fun a b => a = b ∨ a.stop ≤ b.start ∨ b.stop ≤ a.start :=
    pairs.imp fun order => .inr (.inl order)
  have mirrored : (list source).Pairwise fun a b => b = a ∨ b.stop ≤ a.start ∨ a.stop ≤ b.start :=
    pairs.imp fun order => .inr (.inr order)
  exact apart.forall_of_forall_of_flip (fun _ _ => .inl rfl) mirrored member member'

/-- The ends of a token are not inside a comment. -/
theorem clear_of_mem (member : token ∈ list source) : Clear source token.start ∧ Clear source token.stop := by
  obtain ⟨exact, _⟩ := (ordered_iff.1 (list_ordered source)).1 token member
  have size := exact.le
  refine ⟨⟨exact.starts, ?_⟩, ⟨exact.stops, ?_⟩⟩
  · intro comment member' _ inside
    rcases list_apart member member' with rfl | before | after
    · omega
    · omega
    · omega
  · intro comment member' _ inside
    rcases list_apart member member' with rfl | before | after
    · omega
    · omega
    · omega

/-- Tokens of the program itself, which the parser reads, are in order between the comments. -/
theorem program_ordered (ends : ∀ token ∈ list source, sound token.start ∧ sound token.stop) :
    Ordered sound (Text.size source) ((list source).filter isProgram) := by
  obtain ⟨each, pairs⟩ := ordered_iff.1 (list_ordered source)
  refine ordered_iff.2 ⟨?_, pairs.filter _⟩
  intro token member
  obtain ⟨member, _⟩ := List.mem_filter.1 member
  obtain ⟨exact, bound⟩ := each token member
  obtain ⟨starts, stops⟩ := ends token member
  exact ⟨⟨starts, stops, exact.size⟩, bound⟩

theorem clear_zero (source : String) : Clear source 0 :=
  ⟨Text.isBoundary_zero source, fun _ _ _ inside => Nat.not_lt_zero _ inside.1⟩

theorem clear_size (source : String) : Clear source (Text.size source) := by
  refine ⟨Text.isBoundary_size source, ?_⟩
  intro comment member _ inside
  have bound := ((ordered_iff.1 (list_ordered source)).1 comment member).2
  omega

end Token
end TraceWeave.Go
