import KernelCore.FaultReport
import Mathlib.Data.List.Basic

/-!
# Reading reports back

A fault report is all that is left of a machine that has stopped, so nothing may get lost in its
text. Here is a reader for it: it takes the text apart at its blanks and keeps the pieces of the
form `label=value`. What it reads from a report are the registers of the frame, each of them once.
The line that names the exception repeats two of them in other words and adds no entry.
-/
namespace KernelCore

/-! ### Numbers -/

theorem digitValue?_digitChar {d : Nat} (small : d < 16) :
    digitValue? (Nat.digitChar d) = some d := by
  have all : ∀ d : Fin 16, digitValue? (Nat.digitChar d) = some d.val := by decide
  exact all ⟨d, small⟩

theorem parseHex?_append_digit {digits : List Char} {n d : Nat} (read : parseHex? digits = some n)
    (small : d < 16) : parseHex? (digits ++ [Nat.digitChar d]) = some (16 * n + d) := by
  unfold parseHex? at read ⊢
  rw [List.foldlM_append, read]
  simp [digitValue?_digitChar small]

/-- Written digits are read back. -/
theorem parseHex?_hexDigits (n : Nat) : parseHex? (hexDigits n) = some n := by
  induction n using Nat.strongRecOn with
  | ind n ih =>
    unfold hexDigits at ih ⊢
    rcases Nat.lt_or_ge n 16 with single | more
    · rw [Nat.toDigits_of_lt_base single]
      simpa [parseHex?] using digitValue?_digitChar single
    · rw [Nat.toDigits_of_base_le (by decide) more,
        parseHex?_append_digit (ih (n / 16) (by omega)) (Nat.mod_lt n (by decide)),
        Nat.div_add_mod]

theorem parseHex?_replicate_zero_append (count : Nat) (digits : List Char) :
    parseHex? (List.replicate count '0' ++ digits) = parseHex? digits := by
  induction count with
  | zero => rfl
  | succ count ih => exact ih

/-- The number behind `0x`. -/
def readHex? : List Char → Option Nat
  | '0' :: 'x' :: digits => parseHex? digits
  | _ => none

@[simp] theorem readHex?_hex (n : Nat) : readHex? (hex n).toList = some n := by
  rw [hex, String.toList_ofList]
  exact parseHex?_hexDigits n

@[simp] theorem readHex?_wordHex (n : Nat) : readHex? (wordHex n).toList = some n := by
  rw [wordHex, String.toList_ofList]
  exact (parseHex?_replicate_zero_append _ _).trans (parseHex?_hexDigits n)

theorem digitValue?_ne_none {digits : List Char} {acc n : Nat}
    (read : digits.foldlM (fun n c => (digitValue? c).map (16 * n + ·)) acc = some n) :
    ∀ c ∈ digits, digitValue? c ≠ none := by
  induction digits generalizing acc with
  | nil => simp
  | cons c digits ih =>
    rw [List.foldlM_cons, Option.bind_eq_bind, Option.bind_eq_some_iff] at read
    obtain ⟨acc', first, rest⟩ := read
    rw [List.forall_mem_cons]
    refine ⟨fun none => ?_, ih rest⟩
    rw [none] at first
    cases first

/-! ### Pieces of text -/

def isBlank (c : Char) : Bool := c == ' ' || c == '\n'

/-- A character that may stand in a label or a number. -/
def isPlain (c : Char) : Bool := !isBlank c && c != '='

/-- A label, the equals sign and a number. -/
def namedValue? (piece : List Char) : Option (String × Nat) :=
  match piece.splitOn '=' with
  | [label, value] => (readHex? value).map (String.ofList label, ·)
  | _ => none

/-- What the pieces between the blanks say, as far as they are entries. -/
def entriesOf (text : List Char) : List (String × Nat) :=
  (text.splitOnP isBlank).filterMap namedValue?

/-- The labelled numbers of a text, in their order. -/
def entries (text : String) : List (String × Nat) := entriesOf text.toList

theorem isPlain_iff {c : Char} : isPlain c = true ↔ isBlank c = false ∧ (c == '=') = false := by
  rw [isPlain, Bool.and_eq_true, Bool.not_eq_true', bne, Bool.not_eq_true']

theorem isPlain_of_digitValue? {c : Char} (digit : digitValue? c ≠ none) : isPlain c = true := by
  rw [isPlain_iff, isBlank, Bool.or_eq_false_iff]
  simp only [beq_eq_false_iff_ne]
  refine ⟨⟨?_, ?_⟩, ?_⟩
  all_goals
    rintro rfl
    exact digit (by decide)

theorem isPlain_of_readHex? {value : List Char} {n : Nat} (read : readHex? value = some n) :
    ∀ c ∈ value, isPlain c = true := by
  unfold readHex? at read
  split at read
  · have digits := digitValue?_ne_none read
    rw [List.forall_mem_cons, List.forall_mem_cons]
    exact ⟨by decide, by decide, fun c here => isPlain_of_digitValue? (digits c here)⟩
  · cases read

/-- A blank belongs to no piece. -/
theorem entriesOf_append_blank (front rest : List Char) {c : Char} (blank : isBlank c = true) :
    entriesOf (front ++ c :: rest) = entriesOf front ++ entriesOf rest := by
  rw [entriesOf, List.splitOnP_append_cons front rest blank, List.filterMap_append]
  rfl

theorem entriesOf_blank_cons (rest : List Char) {c : Char} (blank : isBlank c = true) :
    entriesOf (c :: rest) = entriesOf rest :=
  entriesOf_append_blank [] rest blank

theorem splitOn_of_isPlain {text : List Char} (plain : ∀ c ∈ text, isPlain c = true) :
    text.splitOn '=' = [text] := by
  rw [List.splitOn_eq_splitOnP,
    List.splitOnP_eq_singleton fun c here => (isPlain_iff.mp (plain c here)).2]

theorem entriesOf_of_isPlain {piece : List Char} (plain : ∀ c ∈ piece, isPlain c = true) :
    entriesOf piece = [] := by
  have whole : namedValue? piece = none := by rw [namedValue?, splitOn_of_isPlain plain]
  rw [entriesOf, List.splitOnP_eq_singleton fun c here => (isPlain_iff.mp (plain c here)).1,
    List.filterMap_cons_none whole, List.filterMap_nil]

theorem entriesOf_entry {label value : List Char} {n : Nat} (plain : ∀ c ∈ label, isPlain c = true)
    (read : readHex? value = some n) :
    entriesOf (label ++ '=' :: value) = [(String.ofList label, n)] := by
  have value_plain := isPlain_of_readHex? read
  have no_blank : ∀ c ∈ label ++ '=' :: value, isBlank c = false := by
    rw [List.forall_mem_append, List.forall_mem_cons]
    exact ⟨fun c here => (isPlain_iff.mp (plain c here)).1, rfl,
      fun c here => (isPlain_iff.mp (value_plain c here)).1⟩
  have parts : (label ++ '=' :: value).splitOn '=' = [label, value] := by
    rw [List.splitOn_eq_splitOnP, List.splitOnP_append_cons label value (by decide),
      ← List.splitOn_eq_splitOnP, ← List.splitOn_eq_splitOnP, splitOn_of_isPlain plain,
      splitOn_of_isPlain value_plain]
    rfl
  have entry : namedValue? (label ++ '=' :: value) = some (String.ofList label, n) := by
    rw [namedValue?, parts]
    simp only [read, Option.map_some]
  rw [entriesOf, List.splitOnP_eq_singleton no_blank, List.filterMap_cons_some entry,
    List.filterMap_nil]

/-- A text without the equals sign has no entries. -/
theorem entriesOf_eq_nil {text : List Char} (none : '=' ∉ text) : entriesOf text = [] := by
  -- The induction goes from blank to blank; `front` is what stands before the next one.
  suffices all : ∀ front : List Char, (∀ c ∈ front, isPlain c = true) →
      entriesOf (front ++ text) = [] from all [] nofun
  induction text with
  | nil =>
    intro front plain
    rw [List.append_nil, entriesOf_of_isPlain plain]
  | cons c text ih =>
    rw [List.mem_cons, not_or] at none
    intro front plain
    by_cases blank : isBlank c = true
    · rw [entriesOf_append_blank front text blank, entriesOf_of_isPlain plain, List.nil_append]
      exact ih none.2 [] nofun
    · rw [List.append_cons]
      refine ih none.2 (front ++ [c]) fun d here => ?_
      rcases List.mem_append.mp here with before | last
      · exact plain d before
      · rw [List.mem_singleton] at last
        subst last
        simp [isPlain, blank, Ne.symm none.1]

/-! ### The registers -/

namespace Register

/-- The name of a register in a report. -/
def label : Register → String
  | .errorCode => "error"
  | r => r.name

/-- The registers that stand in front of the listing of the general ones. -/
def leading : List Register := [.vector, .errorCode, .rip, .cs, .rflags, .rsp, .ss, .ds]

/-- The registers in the order in which a report shows them. -/
def reported : List Register := leading ++ general

theorem reported_perm_all : reported.Perm all := by decide

theorem isPlain_label (r : Register) : ∀ c ∈ r.label.toList, isPlain c = true := by
  rw [← List.all_eq_true]
  cases r <;> decide

theorem label_of_mem_general : ∀ r ∈ general, r.label = r.name := by decide

end Register

namespace Trapframe

/-- What a report shows of one register. -/
def shown (f : Trapframe) (r : Register) : String × Nat := (r.label, (f.get r).toNat)

/-- A label, the equals sign, a number and a blank in front of a text add one entry to it. -/
theorem entriesOf_cell (f : Trapframe) (r : Register) {value : String} {c : Char}
    {rest : List Char} {others : List (String × Nat)}
    (read : readHex? value.toList = some (f.get r).toNat) (blank : isBlank c = true)
    (remain : entriesOf rest = others) :
    entriesOf (r.label.toList ++ '=' :: (value.toList ++ c :: rest)) = f.shown r :: others := by
  rw [← List.cons_append, ← List.append_assoc, entriesOf_append_blank _ rest blank,
    entriesOf_entry r.isPlain_label read, String.ofList_toList, remain]
  rfl

theorem entriesOf_headline_append (f : Trapframe) (rest : List Char) :
    entriesOf (f.headline.toList ++ rest) =
      Register.leading.map f.shown ++ entriesOf rest := by
  unfold headline
  simp only [String.toList_append, List.append_assoc, List.cons_append, List.nil_append,
    show "vector=".toList = Register.vector.label.toList ++ ['='] from rfl,
    show " error=".toList = ' ' :: (Register.errorCode.label.toList ++ ['=']) from rfl,
    show " rip=".toList = ' ' :: (Register.rip.label.toList ++ ['=']) from rfl,
    show " cs=".toList = ' ' :: (Register.cs.label.toList ++ ['=']) from rfl,
    show " rflags=".toList = ' ' :: (Register.rflags.label.toList ++ ['=']) from rfl,
    show " rsp=".toList = ' ' :: (Register.rsp.label.toList ++ ['=']) from rfl,
    show " ss=".toList = ' ' :: (Register.ss.label.toList ++ ['=']) from rfl,
    show " ds=".toList = ' ' :: (Register.ds.label.toList ++ ['=']) from rfl,
    show "\n".toList = ['\n'] from rfl]
  refine f.entriesOf_cell .vector (readHex?_hex _) rfl ?_
  refine f.entriesOf_cell .errorCode (readHex?_hex _) rfl ?_
  refine f.entriesOf_cell .rip (readHex?_wordHex _) rfl ?_
  refine f.entriesOf_cell .cs (readHex?_hex _) rfl ?_
  refine f.entriesOf_cell .rflags (readHex?_hex _) rfl ?_
  refine f.entriesOf_cell .rsp (readHex?_wordHex _) rfl ?_
  refine f.entriesOf_cell .ss (readHex?_hex _) rfl ?_
  exact f.entriesOf_cell .ds (readHex?_hex _) rfl rfl

theorem entriesOf_replicate_append (count : Nat) (rest : List Char) :
    entriesOf (List.replicate count ' ' ++ rest) = entriesOf rest := by
  induction count with
  | zero => rfl
  | succ count ih => rw [List.replicate_succ, List.cons_append, entriesOf_blank_cons _ rfl, ih]

/-- One register of the listing and the gap behind it, or the end of its line. -/
def cellText (f : Trapframe) (cell : Register × Nat) : String :=
  f.registerText cell.1 ++ if cell.2 % 4 = 3 then "\n" else "  "

theorem entriesOf_cellText_append (f : Trapframe) {cell : Register × Nat}
    (general : cell.1 ∈ Register.general) (rest : List Char) :
    entriesOf ((f.cellText cell).toList ++ rest) = f.shown cell.1 :: entriesOf rest := by
  obtain ⟨c, blanks, blank, gap⟩ : ∃ c blanks, isBlank c = true ∧
      (if cell.2 % 4 = 3 then "\n" else "  ").toList = c :: List.replicate blanks ' ' := by
    split
    · exact ⟨'\n', 0, rfl, rfl⟩
    · exact ⟨' ', 1, rfl, rfl⟩
  unfold cellText registerText
  rw [← Register.label_of_mem_general cell.1 general]
  simp only [String.toList_append, String.toList_ofList, padLeft, List.append_assoc,
    entriesOf_replicate_append, gap, show "=".toList = ['='] from rfl, List.cons_append,
    List.nil_append]
  exact f.entriesOf_cell cell.1 (readHex?_wordHex _) blank (entriesOf_replicate_append blanks rest)

theorem entriesOf_listing (f : Trapframe) (cells : List (Register × Nat))
    (general : ∀ cell ∈ cells, cell.1 ∈ Register.general) :
    entriesOf (String.join (cells.map f.cellText)).toList =
      cells.map fun cell => f.shown cell.1 := by
  induction cells with
  | nil => rfl
  | cons cell cells ih =>
    rw [List.forall_mem_cons] at general
    rw [List.map_cons, String.join_cons, String.toList_append,
      f.entriesOf_cellText_append general.1, ih general.2, List.map_cons]

/-- The entries of a frame's text are its registers. -/
theorem entriesOf_text (f : Trapframe) :
    entriesOf f.text.toList = Register.reported.map f.shown := by
  have listing := f.entriesOf_listing Register.general.zipIdx (by decide)
  calc entriesOf f.text.toList
      = entriesOf (f.headline.toList ++
          (String.join (Register.general.zipIdx.map f.cellText)).toList) := by
        rw [← String.toList_append]
        rfl
    _ = Register.reported.map f.shown := by
        rw [entriesOf_headline_append, listing]
        rfl

theorem exists_toList_text (f : Trapframe) : ∃ rest, f.text.toList = 'v' :: rest := by
  unfold text headline
  simp only [String.toList_append, List.append_assoc,
    show "vector=".toList = 'v' :: "ector=".toList from rfl, List.cons_append]
  exact ⟨_, rfl⟩

end Trapframe

namespace FaultReport

/-! ### The lines before the registers -/

/-- A character that neither ends a line nor stands behind a label. -/
def isInner (c : Char) : Bool := c != '\n' && c != '='

theorem ne_newline_of_isInner {line : List Char} (inner : ∀ c ∈ line, isInner c = true) :
    ∀ c ∈ line, (c != '\n') = true := by
  simp only [isInner, Bool.and_eq_true] at inner
  exact fun c here => (inner c here).1

theorem isInner_of_isPlain {c : Char} (plain : isPlain c = true) : isInner c = true := by
  rw [isPlain_iff, isBlank, Bool.or_eq_false_iff] at plain
  rw [isInner, bne, bne, plain.1.2, plain.2]
  rfl

theorem isInner_of_readHex? {value : List Char} {n : Nat} (read : readHex? value = some n) :
    ∀ c ∈ value, isInner c = true :=
  fun c here => isInner_of_isPlain (isPlain_of_readHex? read c here)

theorem isInner_toString (n : Nat) : ∀ c ∈ (toString n).toList, isInner c = true := by
  intro c here
  rw [Nat.toString_eq_ofList_toDigits, String.toList_ofList] at here
  have digit := Nat.isDigit_of_mem_toDigits (by decide) (by decide) here
  rw [isInner, Bool.and_eq_true, bne_iff_ne, bne_iff_ne]
  constructor
  all_goals
    rintro rfl
    cases digit

theorem isInner_exceptionName (vector : Nat) :
    ∀ c ∈ (exceptionName vector).toList, isInner c = true := by
  have known : ∀ name ∈ exceptionNames, name.toList.all isInner = true := by decide +kernel
  rw [exceptionName, List.getD_eq_getElem?_getD, ← List.all_eq_true]
  cases entry : exceptionNames[vector]? with
  | none =>
    rw [Option.getD_none]
    decide
  | some name => exact known name (List.mem_of_getElem? entry)

theorem exists_headline (r : FaultReport) :
    ∃ line, r.headline.toList = line ++ ['\n'] ∧ ∀ c ∈ line, isInner c = true := by
  have vector := isInner_exceptionName r.frame.vector.toNat
  have number := isInner_toString r.frame.vector.toNat
  have code := isInner_of_readHex? (readHex?_hex r.frame.errorCode.toNat)
  refine ⟨("EXCEPTION: " ++ exceptionName r.frame.vector.toNat ++ " (vector " ++
    toString r.frame.vector.toNat ++ ", error code " ++ hex r.frame.errorCode.toNat ++
    ")").toList, ?_, ?_⟩
  · unfold headline
    simp only [String.toList_append, List.append_assoc,
      show ")\n".toList = ")".toList ++ ['\n'] from rfl]
  · simp only [← List.all_eq_true] at vector number code ⊢
    simp only [String.toList_append, List.all_append, vector, number, code]
    decide

theorem toList_text (r : FaultReport) :
    ∃ line, (∀ c ∈ line, isInner c = true) ∧ r.text.toList =
      line ++ '\n' :: ((addressLine r.faultAddress).toList ++ r.frame.text.toList) := by
  obtain ⟨line, first, inner⟩ := r.exists_headline
  refine ⟨line, inner, ?_⟩
  unfold text
  rw [String.toList_append, String.toList_append, first, List.append_assoc, List.append_assoc,
    List.singleton_append]

theorem toList_addressLine (a : UInt64) : (addressLine (some a)).toList =
    "Accessed Address: ".toList ++ (wordHex a.toNat).toList ++ ['\n'] := by
  unfold addressLine
  rw [String.toList_append, String.toList_append]
  rfl

/-- A line without an entry can be left out. -/
theorem entriesOf_line_append {line : List Char} (inner : ∀ c ∈ line, isInner c = true)
    (rest : List Char) : entriesOf (line ++ '\n' :: rest) = entriesOf rest := by
  have none : '=' ∉ line := fun here => absurd (inner '=' here) (by decide)
  rw [entriesOf_append_blank line rest rfl, entriesOf_eq_nil none, List.nil_append]

/-! ### The report -/

/-- The entries of a report are the registers of its frame. -/
theorem entries_text (r : FaultReport) :
    entries r.text = Register.reported.map r.frame.shown := by
  obtain ⟨line, inner, lines⟩ := r.toList_text
  rw [entries, lines, entriesOf_line_append inner, ← r.frame.entriesOf_text]
  cases r.faultAddress with
  | none =>
    have empty : (addressLine none).toList = [] := rfl
    rw [empty, List.nil_append]
  | some a =>
    have value := isInner_of_readHex? (readHex?_wordHex a.toNat)
    rw [toList_addressLine, List.append_assoc, List.singleton_append, entriesOf_line_append]
    rw [← List.all_eq_true] at value ⊢
    rw [List.all_append, value]
    decide

/-- The address that the second line shows, if it shows one. -/
def accessed? (text : String) : Option Nat :=
  let rest := (text.toList.dropWhile (· != '\n')).drop 1
  (List.isPrefixOf? "Accessed Address: ".toList rest).bind fun shown =>
    readHex? (shown.takeWhile (· != '\n'))

theorem accessed?_text (r : FaultReport) :
    accessed? r.text = r.faultAddress.map UInt64.toNat := by
  obtain ⟨line, inner, lines⟩ := r.toList_text
  have rest : (r.text.toList.dropWhile (· != '\n')).drop 1 =
      (addressLine r.faultAddress).toList ++ r.frame.text.toList := by
    rw [lines, List.dropWhile_append_of_pos (ne_newline_of_isInner inner)]
    rfl
  simp only [accessed?, rest]
  cases r.faultAddress with
  | none =>
    -- The second line is then the first one of the frame, which begins otherwise.
    obtain ⟨others, frame⟩ := r.frame.exists_toList_text
    rw [frame]
    rfl
  | some a =>
    have value := ne_newline_of_isInner (isInner_of_readHex? (readHex?_wordHex a.toNat))
    have shown : List.isPrefixOf? "Accessed Address: ".toList
        ((addressLine (some a)).toList ++ r.frame.text.toList) =
          some ((wordHex a.toNat).toList ++ '\n' :: r.frame.text.toList) := by
      rw [List.isPrefixOf?_eq_some_iff_append_eq, toList_addressLine]
      simp only [List.append_assoc, List.singleton_append]
    rw [shown, Option.bind_some, List.takeWhile_append_of_pos value,
      List.takeWhile_cons_of_neg (by decide), List.append_nil, readHex?_wordHex, Option.map_some]

theorem get_eq_of_text_eq {r r' : FaultReport} (same : r.text = r'.text) (reg : Register) :
    r.frame.get reg = r'.frame.get reg := by
  have shown : Register.reported.map r.frame.shown = Register.reported.map r'.frame.shown := by
    rw [← entries_text, ← entries_text, same]
  have reported : reg ∈ Register.reported := Register.reported_perm_all.mem_iff.mpr reg.mem_all
  have entry := List.map_inj_left.mp shown reg reported
  exact UInt64.toNat_inj.mp (congrArg Prod.snd entry)

theorem faultAddress_eq_of_text_eq {r r' : FaultReport} (same : r.text = r'.text) :
    r.faultAddress = r'.faultAddress := by
  have shown : r.faultAddress.map UInt64.toNat = r'.faultAddress.map UInt64.toNat := by
    rw [← accessed?_text, ← accessed?_text, same]
  exact Option.map_injective (fun _ _ => UInt64.toNat_inj.mp) shown

/-- Reports with the same text are about the same frame and the same address: each of the registers
stands in the text once, behind a label of its own, with its whole value, and so does the address if
there is one. -/
theorem text_loses_nothing :
    (∀ r r' : FaultReport, r.text = r'.text →
      (∀ reg, r.frame.get reg = r'.frame.get reg) ∧ r.faultAddress = r'.faultAddress) ∧
    Register.reported.Perm Register.all ∧ (Register.reported.map Register.label).Nodup ∧
    ∀ r : FaultReport,
      entries r.text = Register.reported.map (fun reg => (reg.label, (r.frame.get reg).toNat)) ∧
      accessed? r.text = r.faultAddress.map UInt64.toNat :=
  ⟨fun _ _ same => ⟨get_eq_of_text_eq same, faultAddress_eq_of_text_eq same⟩,
    Register.reported_perm_all, by decide, fun r => ⟨r.entries_text, r.accessed?_text⟩⟩

end FaultReport
end KernelCore
