import TraceWeave.Proofs.Evolution
import TraceWeave.Proofs.Text.Offset

/-!
Loading a disk with one file. Which files there are and where they stand does not depend on the text, so the
program is known of every text that can be loaded.
-/
namespace TraceWeave

variable {text : String}

/-- What is loaded from a disk with one file, if that is one of `main`. -/
def soleProgram (text : String) : Program := ⟨none, [⟨".", "main", ".", false⟩], [⟨.load "main.go" text, 0⟩]⟩

theorem soleProgram_isParsed (text : String) : (soleProgram text).IsParsed := by
  intro file member
  rw [List.mem_singleton.1 member]
  exact Source.isParsed_load _ _

/-- The file is none of tests. -/
theorem soleProgram_production (text : String) :
    ∃ entry, (soleProgram text).files[0]? = some entry ∧ entry.source.isTest = false := by
  have production : Text.finishesWith "main.go" "_test.go" = false := by decide +kernel
  exact ⟨_, rfl, production⟩

/-- Whether a text is that of a file of `main`, without errors. -/
def isMainFile (text : String) : Bool :=
  (Go.Tree.parse text).brokenAt.isNone && (Source.load "main.go" text).packageName? == some "main"

/-- Whether all characters of a text are ASCII. -/
def isPlain (text : String) : Bool := text.toByteArray.data.toList.all (·.toNat < 128)

/-- The bytes of a text as characters. -/
def byteChars (text : String) : List Char := text.toByteArray.data.toList.map fun byte => .ofNat byte.toNat

theorem utf8EncodeChar_byte {byte : UInt8} (plain : byte.toNat < 128) :
    String.utf8EncodeChar (.ofNat byte.toNat) = [byte] := by
  have valid : byte.toNat.isValidChar := .inl (by omega)
  have value : (Char.ofNat byte.toNat).val.toNat = byte.toNat := by
    rw [Char.ofNat, dif_pos valid]
    rfl
  rw [String.utf8EncodeChar]
  simp only [value]
  rw [if_pos (by omega), UInt8.ofNat_toNat]

/-- Bytes are at hand where characters have to be found. -/
theorem toList_eq_byteChars (plain : isPlain text = true) : text.toList = byteChars text := by
  have bytes : ∀ byte ∈ text.toByteArray.data.toList, String.utf8EncodeChar (.ofNat byte.toNat) = [byte] :=
    fun byte member => utf8EncodeChar_byte (by simpa using List.all_eq_true.1 plain byte member)
  have same : String.ofList (byteChars text) = text := by
    rw [← String.toByteArray_inj, String.toByteArray_ofList, List.utf8Encode, byteChars, List.flatMap_map,
      List.flatMap_congr bytes, List.flatMap_singleton']
    exact ByteArray.ext (by simp [List.data_toByteArray])
  rw [← same, String.toList_ofList, same]

/-- Whether characters are those of a file of `main`, without errors and comments. -/
def opensMain (cs : List Char) : Bool :=
  let tokens := Go.Token.listFrom 0 false cs
  cs.all (·.toNat != 0xfeff) && tokens.all (·.kind != .comment) &&
    match (Go.Grammar.nested (4 * tokens.length + 8)).fileItems tokens.length tokens with
    | .error _ => false
    | .ok items =>
        ((Go.Node.mk .sourceFile none 0 (Text.byteCount cs) items).parts.find? (·.kind == .packageClause)).any fun clause =>
          clause.parts.head?.any fun name => Text.byteCount (cs.take name.start) == name.start &&
            "main".toList.isPrefixOf (cs.drop name.start) && name.stop == name.start + 4

theorem list_of_unmarked {cs : List Char} (chars : text.toList = cs) (unmarked : ∀ c ∈ cs, c.toNat ≠ 0xfeff) :
    Go.Token.list text = Go.Token.listFrom 0 false cs := by
  rw [Go.Token.list, chars]
  cases cs with
  | nil => rfl
  | cons c rest => exact if_neg (unmarked c List.mem_cons_self)

theorem slice_main {cs : List Char} {start : Nat} (chars : text.toList = cs)
    (bytes : Text.byteCount (cs.take start) = start) (reads : "main".toList.isPrefixOf (cs.drop start) = true) :
    Text.slice text start (start + 4) = "main" := by
  obtain ⟨after, split⟩ := List.isPrefixOf_iff_prefix.1 reads
  have first : Text.Cut text start (cs.take start) ("main".toList ++ after) := by
    refine ⟨?_, bytes⟩
    rw [split, chars, List.take_append_drop]
  exact first.slice_eq first.step

theorem isMainFile_of_opensMain {cs : List Char} (chars : text.toList = cs) (opens : opensMain cs = true) :
    isMainFile text = true := by
  simp only [opensMain, Bool.and_eq_true, List.all_eq_true, bne_iff_ne] at opens
  obtain ⟨⟨unmarked, plain⟩, opens⟩ := opens
  have lexemes := list_of_unmarked chars unmarked
  have program : (Go.Token.list text).partition (·.kind == .comment) = ([], Go.Token.listFrom 0 false cs) := by
    rw [lexemes, List.partition_eq_filter_filter, List.filter_eq_nil_iff.2 (by simpa using plain),
      List.filter_eq_self.2 (by simpa using plain)]
  cases parsed : (Go.Grammar.nested (4 * (Go.Token.listFrom 0 false cs).length + 8)).fileItems
      (Go.Token.listFrom 0 false cs).length (Go.Token.listFrom 0 false cs) with
  | error trouble =>
      rw [parsed] at opens
      cases opens
  | ok items =>
      rw [parsed] at opens
      obtain ⟨clause, found, opens⟩ := (Option.any_eq_true _ _).1 opens
      obtain ⟨name, first, opens⟩ := (Option.any_eq_true _ _).1 opens
      simp only [Bool.and_eq_true, beq_iff_eq] at opens
      obtain ⟨⟨bytes, reads⟩, stop⟩ := opens
      have tree : Go.Tree.parse text = ⟨⟨.sourceFile, none, 0, Text.byteCount cs, items⟩, none⟩ := by
        rw [Go.Tree.parse, program]
        simp only [parsed, List.isEmpty_nil, if_true, Text.size_eq, chars]
      have named : (Source.load "main.go" text).packageName? = some "main" := by
        simp only [Source.packageName?, Source.root, Source.load, tree, found, first, Option.bind_eq_bind, Option.bind_some,
          Go.Node.text, stop, slice_main chars bytes reads]
        rfl
      simp [isMainFile, tree, named]

theorem isMainFile_of_plain (opens : (isPlain text && opensMain (byteChars text)) = true) : isMainFile text = true := by
  obtain ⟨plain, opens⟩ := Bool.and_eq_true_iff.1 opens
  exact isMainFile_of_opensMain (toList_eq_byteChars plain) opens

/-- What stands at a path of one name. -/
theorem item?_soleDisk (path name : String) (segments : Path.segments path = ["", name])
    (absolute : Path.isAbsolute path = true) (inside : name ≠ "..") :
    (soleDisk text).item? path =
      if Path.isIdle name then some (soleDisk text).top
      else if name = "main.go" then some (.file (.text text)) else none := by
  have written : ¬ (path == "") = true := by
    intro empty
    rw [eq_of_beq empty] at absolute
    exact absurd absolute (by decide +kernel)
  rw [Disk.item?, Disk.way?, if_neg written, if_pos absolute, segments]
  have first : Path.isIdle "" = true := by decide +kernel
  by_cases idle : Path.isIdle name = true
  · simp [Disk.wayFrom?, Item.follow?, soleDisk, first, idle]
  · by_cases main : name = "main.go"
    · subst main
      simp [Disk.wayFrom?, Item.follow?, Item.item?, Item.items, soleDisk, first, idle]
    · simp [Disk.wayFrom?, Item.follow?, soleDisk, first, idle, main, inside, Ne.symm main]

namespace Loader

theorem isFile_module_soleDisk : (soleDisk text).isFile (Path.join "/" "go.mod") = false := by
  have path : Path.join "/" "go.mod" = "/go.mod" := by decide +kernel
  have item : (soleDisk text).item? "/go.mod" = none :=
    (item?_soleDisk "/go.mod" "go.mod" (by decide +kernel) (by decide +kernel) (by decide)).trans
      (by simp [Path.isIdle])
  rw [path, Disk.isFile, item]
  rfl

theorem readModule_soleDisk : readModule (soleDisk text) "/" = .ok none := by
  rw [readModule, if_neg]
  simp [isFile_module_soleDisk]

theorem item?_root_soleDisk : (soleDisk text).item? "/" = some (soleDisk text).top :=
  (item?_soleDisk "/" "" (by decide +kernel) (by decide +kernel) (by decide)).trans (by simp [Path.isIdle])

theorem discoverWith_soleDisk : discoverWith (soleDisk text) "/" [] [] = .ok ["main.go"] := by
  have named : Selection.isGoFile "main.go" = true := by decide +kernel
  rw [discoverWith, item?_root_soleDisk]
  simp [soleDisk, Selection.filesBelow, Selection.inOrder, Item.items, Selection.walkItems, Selection.walkItem,
    Selection.below, named, Selection.isExcluded, Selection.isSelected]

theorem read_soleDisk : (soleDisk text).read (Path.join "/" "main.go") = .ok text := by
  have path : Path.join "/" "main.go" = "/main.go" := by decide +kernel
  have item : (soleDisk text).item? "/main.go" = some (.file (.text text)) :=
    (item?_soleDisk "/main.go" "main.go" (by decide +kernel) (by decide +kernel) (by decide)).trans
      (by simp [Path.isIdle])
  rw [path, Disk.read, item]

theorem readFile_soleDisk (main : isMainFile text = true) :
    readFile (soleDisk text) "/" "main.go" = .ok ⟨.load "main.go" text, ".", "main"⟩ := by
  have directory : directoryOf "main.go" = "." := by decide +kernel
  obtain ⟨intact, named⟩ := Bool.and_eq_true_iff.1 main
  have parses : (Source.load "main.go" text).tree.brokenAt = none := Option.isNone_iff_eq_none.1 intact
  simp [readFile, read_soleDisk, ofText, parses, eq_of_beq named, directory]

theorem assemble_sole (source : Source) :
    assemble none [⟨source, ".", "main"⟩] = ⟨none, [⟨".", "main", ".", false⟩], [⟨source, 0⟩]⟩ := by
  have production : Text.finishesWith "main" "_test" = false := by decide +kernel
  simp only [assemble, List.foldl_cons, List.foldl_nil, Group.add, List.mergeSort_singleton, List.map_cons,
    List.map_nil, Group.toPackage, Group.isTest, production, Bool.false_and, importPathOf]
  rfl

theorem load_soleDisk (main : isMainFile text = true) : load (soleDisk text) "/" {} = .ok (soleProgram text) := by
  have files : ["main.go"].mapM (readFile (soleDisk text) "/") = .ok [⟨.load "main.go" text, ".", "main"⟩] := by
    simp only [List.mapM_cons, readFile_soleDisk main, List.mapM_nil]
    rfl
  have loaded : loadWith (soleDisk text) "/" [] [] = .ok (assemble none [⟨.load "main.go" text, ".", "main"⟩]) := by
    simp only [loadWith, readModule_soleDisk, discoverWith_soleDisk]
    simp only [bind, Except.bind, files, pure, Except.pure]
  exact loaded.trans (congrArg Except.ok (assemble_sole _))

end Loader
end TraceWeave
