import TapeLang.Program
import TapeLang.Proofs.Text.Fields
import TapeLang.Proofs.Text.Numeral

/-!
# Reading a listing

A line of a listing has three fields: the place, the name of the operation and the argument
(`fields_listingLine`).  None of them is ever cut, and a blank character stands between two of them
even where a name fills its column or a place is longer than four digits.

So the instruction can be read back from its line (`Instruction.ofLine?_listingLine`), and a program
over the machine's operations from its listing (`Program.ofListing?_eq_some`).

All of this is about the lines as they are meant to be.  They come out exactly if every number in
them can be written (`Program.listed_eq_ok_iff`).
-/

namespace TapeLang

/-! ## The fields of a line -/

namespace Text

theorem unbroken_toDigits (n : Nat) : Unbroken isGap (Nat.toDigits 10 n) where
  ne_nil := Nat.toDigits_ne_nil
  solid _ hc :=
    (IsDigit.of_isDigit (Nat.isDigit_of_mem_toDigits (by decide) (by decide) hc)).apart.1

theorem unbroken_leftpad (width n : Nat) :
    Unbroken isGap ((Nat.toDigits 10 n).leftpad width '0') where
  ne_nil := List.append_ne_nil_of_right_ne_nil _ Nat.toDigits_ne_nil
  solid c hc := by
    rcases List.mem_append.mp hc with hzero | hdigit
    · rw [List.eq_of_mem_replicate hzero]
      rfl
    · exact (unbroken_toDigits n).solid c hdigit

theorem unbroken_text (z : Int) : Unbroken isGap (Decimal.text z).toList := by
  by_cases hneg : z < 0
  · rw [Decimal.toList_text_of_neg hneg]
    exact ⟨List.cons_ne_nil _ _, List.forall_mem_cons.mpr ⟨rfl, (unbroken_toDigits _).solid⟩⟩
  · obtain ⟨n, rfl⟩ := Int.eq_ofNat_of_zero_le (Int.not_lt.mp hneg)
    rw [Decimal.toList_text_natCast]
    exact unbroken_toDigits n

end Text

theorem Decimal.text_eq_toString (z : Int) : text z = toString z := by
  cases z <;> simp [text, sign, toString, Int.repr]

theorem Operation.unbroken_name (op : Operation) : Text.Unbroken Text.isGap op.name.toList := by
  have hall : ∀ op ∈ all, op.name.toList ≠ [] ∧ op.name.toList.any Text.isGap = false := by decide
  obtain ⟨hne, hsolid⟩ := hall op op.mem_all
  exact ⟨hne, by simpa using hsolid⟩

namespace Program

/-- A line of a listing as words with spaces around them.  The column of the name may be full, but
one more space always follows it. -/
theorem toList_listingLine (place : Nat) (opcode : String) (arg : Int) :
    (listingLine place opcode arg).toList =
      List.replicate 2 ' ' ++ ((Nat.toDigits 10 place).leftpad 4 '0' ++
        (List.replicate 2 ' ' ++ (opcode.toList ++
          (List.replicate (16 - opcode.toList.length + 1) ' ' ++ (Decimal.text arg).toList)))) := by
  simp [listingLine, Decimal.toList_padded_natCast, column, List.rightpad, List.replicate_succ']

theorem fields_listingLine (place : Nat) (op : Operation) (arg : Int) :
    Text.fields Text.isGap (listingLine place op.name arg).toList =
      [(Nat.toDigits 10 place).leftpad 4 '0', op.name.toList, (toString arg).toList] := by
  have hspaces (n : Nat) : ∀ c ∈ List.replicate n ' ', Text.isGap c := by
    intro c hc
    rw [List.eq_of_mem_replicate hc]
    rfl
  have hgap (n : Nat) : List.replicate (n + 1) ' ' ≠ [] := List.cons_ne_nil _ _
  rw [toList_listingLine, Text.fields_append_of_blank (hspaces 2),
    (Text.unbroken_leftpad 4 place).fields_append (hgap 1) (hspaces 2),
    op.unbroken_name.fields_append (hgap _) (hspaces _), (Text.unbroken_text arg).fields_eq,
    Decimal.text_eq_toString]

/-- A name as long as its column, and a place with more digits than there is room for. -/
example :
    listingLine 12345 (Operation.carry .right).name (-7) = "  12345  MOVE_VALUE_RIGHT -7" := by
  rfl

theorem newline_not_mem_listingLine (place : Nat) (op : Operation) (arg : Int) :
    '\n' ∉ (listingLine place op.name arg).toList := by
  rw [toList_listingLine]
  have hplace := (Text.unbroken_toDigits place).not_mem (c := '\n') rfl
  have hname := op.unbroken_name.not_mem (c := '\n') rfl
  have harg := (Text.unbroken_text arg).not_mem (c := '\n') rfl
  simp [hplace, hname, harg]

end Program

/-! ## Reading -/

/-- The instruction in a line of a listing. -/
def Instruction.ofLine? (line : String) : Option Instruction :=
  match Text.fields Text.isGap line.toList with
  | [_, opcode, arg] => do
    let op ← Operation.ofAtom? (.text (.ofList opcode))
    return .of op (← Text.readDecimal? arg)
  | _ => none

/-- The program of a listing. -/
def Program.ofListing? (lines : List String) : Option Program :=
  (lines.mapM Instruction.ofLine?).map Program.ofList

/-- All instructions of the program are for operations of the machine. -/
def Program.OfOperations (p : Program) : Prop :=
  ∀ i ∈ p.toList, ∃ op arg, i = .of op arg

theorem Instruction.ofLine?_listingLine (place : Nat) (op : Operation) (arg : Int) :
    ofLine? (Program.listingLine place op.name arg) = some (.of op arg) := by
  simp only [ofLine?, Program.fields_listingLine, String.ofList_toList, Operation.ofAtom?_name,
    ← Decimal.text_eq_toString, Text.readDecimal?_text]
  rfl

namespace Program

variable {p : Program} {lines : List String}

/-- The lines of some instructions, each with the place that it has. -/
theorem listingFrom?_eq_some {instructions : List Instruction} (place : Nat)
    (hops : ∀ i ∈ instructions, ∃ op arg, i = .of op arg) :
    listingFrom? place instructions =
      some (instructions.mapIdx
        fun k i => listingLine (place + k) i.opcode.toAtom.plain i.arg) := by
  induction instructions generalizing place with
  | nil => rfl
  | cons i rest ih =>
      rw [List.forall_mem_cons] at hops
      obtain ⟨⟨op, arg, rfl⟩, hrest⟩ := hops
      rw [listingFrom?, ih (place + 1) hrest, List.mapIdx_cons]
      simp only [Nat.add_assoc, Nat.add_comm 1, Nat.add_zero]
      rfl

theorem OfOperations.listing?_eq_some (hops : p.OfOperations) :
    p.listing? =
      some (p.toList.mapIdx fun place i => listingLine place i.opcode.toAtom.plain i.arg) := by
  rw [listing?, listingFrom?_eq_some 0 hops]
  simp only [Nat.zero_add]

theorem getElem?_of_listing? (hops : p.OfOperations) (hlines : p.listing? = some lines)
    {place : Nat} {op : Operation} {arg : Int} (hget : p.toList[place]? = some (.of op arg)) :
    lines[place]? = some (listingLine place op.name arg) := by
  cases hops.listing?_eq_some.symm.trans hlines
  rw [List.getElem?_mapIdx, hget]
  rfl

theorem newline_not_mem_of_listing? (hops : p.OfOperations) (hlines : p.listing? = some lines) :
    ∀ line ∈ lines, '\n' ∉ line.toList := by
  cases hops.listing?_eq_some.symm.trans hlines
  intro line hline
  obtain ⟨place, hplace, rfl⟩ := List.mem_mapIdx.mp hline
  obtain ⟨op, arg, hop⟩ := hops _ (List.getElem_mem hplace)
  rw [hop]
  exact newline_not_mem_listingLine place op arg

theorem mapM_ofLine? {instructions : List Instruction} (place : Nat)
    (hops : ∀ i ∈ instructions, ∃ op arg, i = .of op arg)
    (hlines : listingFrom? place instructions = some lines) :
    lines.mapM Instruction.ofLine? = some instructions := by
  induction instructions generalizing place lines with
  | nil =>
      cases hlines
      rfl
  | cons i rest ih =>
      rw [List.forall_mem_cons] at hops
      obtain ⟨⟨op, arg, rfl⟩, hrest⟩ := hops
      simp only [listingFrom?, Option.bind_eq_bind, Option.bind_eq_some_iff, Option.pure_def,
        Option.some.injEq] at hlines
      obtain ⟨opcode, hopcode, later, hlater, rfl⟩ := hlines
      obtain rfl : op.name = opcode := Option.some.inj hopcode
      rw [List.mapM_cons, Instruction.ofLine?_listingLine, ih (place + 1) hrest hlater]
      rfl

/-! ## Numbers that are too long -/

theorem listedLine_eq_ok_iff {place : Nat} {i : Instruction} {line : String} :
    listedLine place i = .ok line ↔
      Decimal.Writable place ∧ i.Writable ∧
        ∃ opcode, i.opcode.toAtom.tabular? = some opcode ∧
          listingLine place opcode i.arg = line := by
  unfold listedLine
  split
  · rename_i hplace
    exact ⟨nofun, fun ⟨hwritable, _⟩ => absurd hwritable hplace⟩
  · rename_i hplace
    rw [Decidable.not_not] at hplace
    cases i.opcode.toAtom.tabular? with
    | none => simp
    | some opcode =>
        dsimp only
        split <;> simp_all

theorem listedFrom_cons_eq_ok_iff {place : Nat} {i : Instruction} {rest : List Instruction} :
    listedFrom place (i :: rest) = .ok lines ↔
      ∃ line later, listedLine place i = .ok line ∧ listedFrom (place + 1) rest = .ok later ∧
        line :: later = lines := by
  cases hline : listedLine place i with
  | error c => simp [listedFrom, hline, bind, Except.bind]
  | ok line =>
      cases hrest : listedFrom (place + 1) rest with
      | error c => simp [listedFrom, hline, hrest, bind, Except.bind]
      | ok later => simp [listedFrom, hline, hrest, bind, Except.bind, pure, Except.pure]

/-- The lines come out as they are meant to be exactly if all numbers in them can be written. -/
theorem listedFrom_eq_ok_iff {place : Nat} {instructions : List Instruction} :
    listedFrom place instructions = .ok lines ↔
      listingFrom? place instructions = some lines ∧ (∀ i ∈ instructions, i.Writable) ∧
        ∀ k : Nat, k < instructions.length → Decimal.Writable (place + k : Nat) := by
  induction instructions generalizing place lines with
  | nil => simp [listedFrom, listingFrom?]
  | cons i rest ih =>
      rw [listedFrom_cons_eq_ok_iff, List.forall_mem_cons]
      constructor
      · rintro ⟨line, later, hline, hrest, rfl⟩
        obtain ⟨hplace, hhead, opcode, hopcode, rfl⟩ := listedLine_eq_ok_iff.mp hline
        obtain ⟨hlater, htail, hplaces⟩ := ih.mp hrest
        refine ⟨by simp [listingFrom?, hopcode, hlater], ⟨hhead, htail⟩, fun k hk => ?_⟩
        cases k with
        | zero => exact hplace
        | succ k =>
            rw [← Nat.add_assoc, Nat.add_right_comm]
            exact hplaces k (Nat.lt_of_succ_lt_succ hk)
      · rintro ⟨hlisting, ⟨hhead, htail⟩, hplaces⟩
        simp only [listingFrom?, Option.bind_eq_bind, Option.bind_eq_some_iff, Option.pure_def,
          Option.some.injEq] at hlisting
        obtain ⟨opcode, hopcode, later, hlater, rfl⟩ := hlisting
        refine ⟨_, later, ?_, ?_, rfl⟩
        · exact listedLine_eq_ok_iff.mpr ⟨hplaces 0 (Nat.succ_pos _), hhead, opcode, hopcode, rfl⟩
        · refine ih.mpr ⟨hlater, htail, fun k hk => ?_⟩
          rw [Nat.add_assoc, Nat.add_comm 1]
          exact hplaces (k + 1) (Nat.succ_lt_succ hk)

theorem listed_eq_ok_iff : p.listed = .ok lines ↔ p.listing? = some lines ∧ p.Writable := by
  have hplaces : (∀ k : Nat, k < p.toList.length → Decimal.Writable (0 + k : Nat)) ↔
      p.size ≤ Decimal.limit := by
    simp only [Nat.zero_add, Decimal.writable_natCast, length_toList]
    constructor
    · intro hall
      by_contra hlong
      exact Nat.lt_irrefl _ (hall Decimal.limit (Nat.lt_of_not_le hlong))
    · exact fun hsize k hk => Nat.lt_of_lt_of_le hk hsize
  rw [listed, listedFrom_eq_ok_iff, hplaces, listing?, Writable, and_comm (a := p.size ≤ _)]

/-- For an operation the only error in its line is a number that is too long. -/
theorem listedLine_of_error {place : Nat} {op : Operation} {arg : Int} {c : Crash}
    (herror : listedLine place (.of op arg) = .error c) : c = .unwritable := by
  unfold listedLine at herror
  split at herror
  · cases herror
    rfl
  · have hname : (Instruction.of op arg).opcode.toAtom.tabular? = some op.name := rfl
    simp only [hname] at herror
    split at herror <;> cases herror
    rfl

theorem listedFrom_of_error {place : Nat} {instructions : List Instruction} {c : Crash}
    (hops : ∀ i ∈ instructions, ∃ op arg, i = .of op arg)
    (herror : listedFrom place instructions = .error c) : c = .unwritable := by
  induction instructions generalizing place with
  | nil => cases herror
  | cons i rest ih =>
      rw [List.forall_mem_cons] at hops
      obtain ⟨⟨op, arg, rfl⟩, hrest⟩ := hops
      cases hline : listedLine place (.of op arg) with
      | error other =>
          simp only [listedFrom, hline, bind, Except.bind, Except.error.injEq] at herror
          exact herror ▸ listedLine_of_error hline
      | ok line =>
          cases hlater : listedFrom (place + 1) rest with
          | error other =>
              simp only [listedFrom, hline, hlater, bind, Except.bind, Except.error.injEq] at herror
              exact ih hrest (herror ▸ hlater)
          | ok later =>
              simp [listedFrom, hline, hlater, bind, Except.bind, pure, Except.pure] at herror

theorem OfOperations.listed_eq_error (hops : p.OfOperations) (hlong : ¬ p.Writable) :
    p.listed = .error .unwritable := by
  cases hlisted : p.listed with
  | ok lines => exact absurd (listed_eq_ok_iff.mp hlisted).2 hlong
  | error c => rw [listedFrom_of_error hops hlisted]

/-- A program is read back from its listing. -/
theorem ofListing?_eq_some (hops : p.OfOperations) (hlines : p.listing? = some lines) :
    ofListing? lines = some p := by
  rw [ofListing?, mapM_ofLine? 0 hops hlines]
  rfl

end Program

end TapeLang
