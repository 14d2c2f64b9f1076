import TapeLang.Proofs.CommandLine.Exits
import TapeLang.Proofs.Program.Listing
import TapeLang.Proofs.Text.Utf8

/-!
# Reading a dump

A listing tells the program (`listing_rebuilds_program`), and a dump of a file shows the listing of
the compiled program under a heading.  So the program can be read back from the bytes of the dump
(`Program.ofDump?`): a line of the listing has no line end in it, so the lines are told apart.
-/

namespace TapeLang

/-- The program that a dump shows: the lines behind the heading are its listing. -/
def Program.ofDump? (shown : List UInt8) : Option Program :=
  let pieces := (Text.decodeUtf8 shown).splitOn '\n'
  -- Behind the last line end stands nothing.
  ofListing? (pieces.tail.dropLast.map String.ofList)

/-- Every instruction of a compiled program is for an operation. -/
theorem Program.Compiled.ofOperations {p : Program} (hcompiled : p.Compiled) : p.OfOperations := by
  rintro ⟨opcode, arg⟩ hmem
  cases opcode with
  | known op => exact ⟨op, arg, rfl⟩
  | foreign label unnamed => exact (hcompiled.normal _ hmem).elim

namespace CommandLine

variable {lines : List String}

/-- Lines without line ends in them are the pieces between the line ends of the output. -/
theorem splitOn_linesOut (hlines : ∀ line ∈ lines, '\n' ∉ line.toList) :
    (Text.decodeUtf8 (linesOut lines)).splitOn '\n' = lines.map String.toList ++ [[]] := by
  induction lines with
  | nil => rfl
  | cons line rest ih =>
      rw [List.forall_mem_cons] at hlines
      rw [linesOut, List.flatMap_cons, ← linesOut, Text.decodeUtf8_encodeUtf8_append,
        String.toList_append, List.append_assoc]
      exact (List.splitOn_append_cons_self_of_not_mem hlines.1 _).trans
        (congrArg (line.toList :: ·) (ih hlines.2))

/-- A dump is read like the listing in it. -/
theorem ofDump?_linesOut {heading : String} (hheading : '\n' ∉ heading.toList)
    (hlines : ∀ line ∈ lines, '\n' ∉ line.toList) :
    Program.ofDump? (linesOut (heading :: lines)) = Program.ofListing? lines := by
  have hpieces := splitOn_linesOut (List.forall_mem_cons.mpr ⟨hheading, hlines⟩)
  rw [Program.ofDump?, hpieces, List.map_cons, List.cons_append, List.tail_cons,
    List.dropLast_concat, List.map_map]
  simp

/-- A dump of a file that compiles shows the listing under its heading. -/
theorem launch_of_listing? {r : Resources} {arguments : List String} {readFile : FileReader}
    {input bytes : List UInt8} {request : Request} {file : String} {program : Program}
    (hrequest : Request.ofArguments arguments = .ok request) (hdump : request.options.dump = true)
    (hfile : request.file? = some file) (hname : IsFileName file)
    (hread : readFile file = .ok bytes)
    (hsource : Program.ofSource (sourceText bytes) request.options.optimize = .ok program)
    (hlines : program.listing? = some lines) :
    launch r arguments readFile input =
      some { stdout := linesOut ("INSTRUCTIONS:" :: lines), input } := by
  simp only [launch, hrequest, Request.obey_of_file hfile hname, hdump, if_true, dump, hread,
    hsource, hlines]

/-- A listing has a line for every instruction, with three fields: the place, filled with zeros to
four digits, the name and the argument.  So it tells the program, and no other one has the same
listing.  If a number in it is too long, with more than 4300 digits, the crash of the text comes out
instead.  A dump of a file shows the listing of its program under a heading, and tells the program
as well. -/
theorem listing_rebuilds_program (p : Program) :
    (∀ z, Decimal.Writable z ↔ (Nat.toDigits 10 z.natAbs).length ≤ 4300) ∧
    (p.OfOperations → p.Writable → ∃ lines, p.listed = .ok lines ∧ lines.length = p.size ∧
      (∀ (place : Nat) (op : Operation) (arg : Int), p.toList[place]? = some (.of op arg) →
        ∃ line, lines[place]? = some line ∧
          Text.fields Text.isGap line.toList =
            [(Nat.toDigits 10 place).leftpad 4 '0', op.name.toList, (toString arg).toList]) ∧
      Program.ofListing? lines = some p ∧
      ∀ q : Program, q.OfOperations → q.listed = .ok lines → q = p) ∧
    (p.OfOperations → ¬ p.Writable → p.listed = .error .unwritable) ∧
    ∀ (r : Resources) (arguments : List String) (readFile : FileReader) (input bytes : List UInt8)
      (request : Request) (file : String), Request.ofArguments arguments = .ok request →
      request.options.dump = true → request.file? = some file → IsFileName file →
      readFile file = .ok bytes →
      Program.ofSource (sourceText bytes) request.options.optimize = .ok p →
      ∃ lines t, p.listing? = some lines ∧ (p.Writable → p.listed = .ok lines) ∧
        launch r arguments readFile input = some t ∧
        t.stdout = linesOut ("INSTRUCTIONS:" :: lines) ∧ Program.ofDump? t.stdout = some p := by
  refine ⟨fun _ => Decimal.writable_iff_length, fun hops hwritable => ?_,
    fun hops hlong => hops.listed_eq_error hlong, ?_⟩
  · obtain ⟨lines, hlines⟩ : ∃ lines, p.listing? = some lines := ⟨_, hops.listing?_eq_some⟩
    have hread := Program.ofListing?_eq_some hops hlines
    refine ⟨lines, Program.listed_eq_ok_iff.mpr ⟨hlines, hwritable⟩,
      Program.length_listing? hlines, fun place op arg hget => ?_, hread,
      fun q hother hlisted => ?_⟩
    · exact ⟨_, Program.getElem?_of_listing? hops hlines hget,
        Program.fields_listingLine place op arg⟩
    · have hsame := (Program.listed_eq_ok_iff.mp hlisted).1
      exact Option.some.inj ((Program.ofListing?_eq_some hother hsame).symm.trans hread)
  · intro r arguments readFile input bytes request file hrequest hdump hfile hname hbytes hsource
    have hops := (Compilation.compiled_of_ofSource hsource).ofOperations
    obtain ⟨lines, hlines⟩ : ∃ lines, p.listing? = some lines := ⟨_, hops.listing?_eq_some⟩
    have hshown : Program.ofDump? (linesOut ("INSTRUCTIONS:" :: lines)) = some p := by
      rw [ofDump?_linesOut (by decide) (Program.newline_not_mem_of_listing? hops hlines)]
      exact Program.ofListing?_eq_some hops hlines
    exact ⟨lines, _, hlines, fun hwritable => Program.listed_eq_ok_iff.mpr ⟨hlines, hwritable⟩,
      launch_of_listing? hrequest hdump hfile hname hbytes hsource hlines, rfl, hshown⟩

/-- A name that fills its column stands before a long argument, and in the dump of a file. -/
theorem listing_rebuilds_program_of_full_column :
    let p : Program := .ofList [.of .zero (-7), .of (.carry .right) 12345678901234567890]
    let q : Program := .ofList [.of (.carry .right) 1]
    let readFile : FileReader := fun _ => .ok [91, 45, 62, 43, 60, 93]
    p.OfOperations ∧ p.Writable ∧ p.toList[1]? = some (.of (.carry .right) 12345678901234567890) ∧
      (∃ lines, p.listed = .ok lines ∧ lines.length = 2 ∧
        (∃ line, lines[1]? = some line ∧ Text.fields Text.isGap line.toList =
          ["0001".toList, "MOVE_VALUE_RIGHT".toList, "12345678901234567890".toList]) ∧
        Program.ofListing? lines = some p ∧ q.listed ≠ .ok lines) ∧
      Request.ofArguments ["--dump", "a.bf"] = .ok ⟨some "a.bf", { dump := true }⟩ ∧
      IsFileName "a.bf" ∧ Program.ofSource (sourceText [91, 45, 62, 43, 60, 93]) true = .ok q ∧
      ∃ t, launch ⟨0, .standard⟩ ["--dump", "a.bf"] readFile [] = some t ∧
        Program.ofDump? t.stdout = some q := by
  intro p q readFile
  have hp : p.OfOperations :=
    List.forall_mem_cons.mpr ⟨⟨_, _, rfl⟩, List.forall_mem_singleton.mpr ⟨_, _, rfl⟩⟩
  have hq : q.OfOperations := List.forall_mem_singleton.mpr ⟨_, _, rfl⟩
  have hlong : Decimal.Writable 12345678901234567890 := by
    rw [Decimal.writable_iff_length, Text.maxDigits]
    decide
  have hwritable : p.Writable :=
    ⟨Nat.le_trans (by decide) Decimal.ten_le_limit, List.forall_mem_cons.mpr
      ⟨⟨trivial, Decimal.writable_of_lt_ten (by decide)⟩,
        List.forall_mem_singleton.mpr ⟨trivial, hlong⟩⟩⟩
  have hget : p.toList[1]? = some (.of (.carry .right) 12345678901234567890) := rfl
  have hrequest :
      Request.ofArguments ["--dump", "a.bf"] = .ok ⟨some "a.bf", { dump := true }⟩ := rfl
  have hname : IsFileName "a.bf" := by decide
  have hsource : Program.ofSource (sourceText [91, 45, 62, 43, 60, 93]) true = .ok q := by
    decide +kernel
  obtain ⟨lines, hlisted, hlength, hfields, hread, hunique⟩ :=
    (listing_rebuilds_program p).2.1 hp hwritable
  obtain ⟨-, t, -, -, hlaunch, -, hshown⟩ := (listing_rebuilds_program q).2.2.2 ⟨0, .standard⟩
    ["--dump", "a.bf"] readFile [] _ _ _ hrequest rfl rfl hname rfl hsource
  have hother : q.listed ≠ .ok lines := fun hsame =>
    absurd (congrArg Program.size (hunique q hq hsame)) (by decide)
  exact ⟨hp, hwritable, hget, ⟨lines, hlisted, hlength, hfields 1 _ _ hget, hread, hother⟩,
    hrequest, hname, hsource, t, hlaunch, hshown⟩

/-- An operand with one digit too many has no line in a listing. -/
theorem operand_too_long_for_listing :
    let p : Program := .ofList [.repeated .add Decimal.limit]
    p.OfOperations ∧ 4300 < (Nat.toDigits 10 Decimal.limit).length ∧
      (¬ ∃ lines, p.listed = .ok lines) ∧ p.listed = .error .unwritable := by
  intro p
  have hops : p.OfOperations := List.forall_mem_singleton.mpr ⟨_, _, rfl⟩
  have hlong : ¬ p.Writable := fun hwritable =>
    Decimal.not_writable_limit (hwritable.2 _ List.mem_cons_self).2
  refine ⟨hops, Decimal.lt_length_limit, ?_, hops.listed_eq_error hlong⟩
  rintro ⟨lines, hlisted⟩
  exact hlong (Program.listed_eq_ok_iff.mp hlisted).2

end CommandLine

end TapeLang
