import TapeLang.CommandLine.Options

/-!
# The grammar of the command line

`ReadAs` says how a command line is made of groups, and `Answers` what the answer to some groups is.
Both are told without the order in which the arguments are looked at: a group is what it is by how
it is spelled (`Group.Spelled`), and a flag is on if its group occurs somewhere.

Every command line is read in exactly one way (`groups_eq_iff`), and every list of groups has
exactly one answer (`ofGroups_eq_iff`).

The options follow from which flags occur and from the values of the cell counts in their order
(`Options.Reflects`).  This is an invariant of the groups read so far, kept by one more group
(`Collected.Collects.add`).  So nothing else about the order of the groups matters.
-/

namespace TapeLang.CommandLine

/-! ## How groups are spelled -/

/-- The argument that names a flag. -/
def Flag.word : Flag → String
  | debug => "--debug"
  | dump => "--dump"
  | noOptimize => "--no-optimize"
  | profile => "--profile"
  | trace => "--trace"

theorem Flag.ofArgument?_eq_some_iff {argument : String} {f : Flag} :
    Flag.ofArgument? argument = some f ↔ argument = f.word := by
  constructor
  · intro hflag
    unfold Flag.ofArgument? at hflag
    split at hflag <;> cases hflag <;> rfl
  · rintro rfl
    cases f <;> rfl

theorem textBehind?_eq_some_iff {beginning argument text : String} :
    textBehind? beginning argument = some text ↔ argument = beginning ++ text := by
  unfold textBehind?
  rw [← String.toList_inj, String.toList_append]
  constructor
  · intro htext
    split at htext
    · rename_i hprefix
      obtain ⟨rest, hrest⟩ := List.isPrefixOf_iff_prefix.mp hprefix
      cases htext
      rw [← hrest, List.drop_left, String.toList_ofList]
    · cases htext
  · intro hargument
    rw [hargument, List.drop_left, String.ofList_toList, if_pos]
    exact List.isPrefixOf_iff_prefix.mpr (List.prefix_append ..)

/-- The ways to spell a group that is complete. -/
inductive Group.Spelled : Group → List String → Prop where
  | cells (value : String) : Spelled (.cells value) ["--cells", value]
  | cellsEquals (value : String) : Spelled (.cells value) ["--cells=" ++ value]
  | flag (f : Flag) : Spelled (.flag f) [f.word]
  | help : Spelled .help ["--help"]
  | shortHelp : Spelled .help ["-h"]
  | unknown (rest : String) (hcells : "--" ++ rest ≠ "--cells")
      (hvalue : ∀ value, "--" ++ rest ≠ "--cells=" ++ value)
      (hflag : ∀ f : Flag, "--" ++ rest ≠ f.word) (hhelp : "--" ++ rest ≠ "--help") :
      Spelled (.unknown ("--" ++ rest)) ["--" ++ rest]
  | file {name : String} (hplain : ∀ rest, name ≠ "--" ++ rest) (hhelp : name ≠ "-h") :
      Spelled (.file name) [name]

/-- The groups that a command line is made of.  Only at the end can a cell count lack its value. -/
inductive ReadAs : List String → List Group → Prop where
  | nil : ReadAs [] []
  | dangling : ReadAs ["--cells"] [.danglingCells]
  | cons {group : Group} {words rest : List String} {given : List Group}
      (hspelled : group.Spelled words) (hrest : ReadAs rest given) :
      ReadAs (words ++ rest) (group :: given)

theorem textBehind?_eq_none_iff {beginning argument : String} :
    textBehind? beginning argument = none ↔ ∀ text, argument ≠ beginning ++ text := by
  rw [Option.eq_none_iff_forall_ne_some]
  exact forall_congr' fun text => not_congr textBehind?_eq_some_iff

/-- An argument that stands by itself spells the group that it is taken for. -/
theorem spelled_ofArgument {argument : String} (hplain : argument ≠ "--cells") :
    (Group.ofArgument argument).Spelled [argument] := by
  unfold Group.ofArgument
  split
  · rename_i value hvalue
    rw [textBehind?_eq_some_iff.mp hvalue]
    exact .cellsEquals value
  · rename_i hvalue
    rw [textBehind?_eq_none_iff] at hvalue
    split
    · rename_i f hflag
      rw [Flag.ofArgument?_eq_some_iff.mp hflag]
      exact .flag f
    · rename_i hflag
      have hwords : ∀ f : Flag, argument ≠ f.word := fun f hword =>
        Option.eq_none_iff_forall_ne_some.mp hflag f (Flag.ofArgument?_eq_some_iff.mpr hword)
      split
      · rename_i hhelp
        rcases hhelp with rfl | rfl
        · exact .shortHelp
        · exact .help
      · rename_i hhelp
        rw [not_or] at hhelp
        cases hdashes : textBehind? "--" argument with
        | none => exact .file (textBehind?_eq_none_iff.mp hdashes) hhelp.1
        | some rest =>
            obtain rfl := textBehind?_eq_some_iff.mp hdashes
            exact .unknown rest hplain hvalue hwords hhelp.2

theorem groups_cons {argument : String} (hplain : argument ≠ "--cells") (rest : List String) :
    groups (argument :: rest) = .ofArgument argument :: groups rest := by
  rw [groups]
  · rintro rfl
    exact absurd rfl hplain
  · rintro value later rfl
    exact absurd rfl hplain

/-- What names no flag and carries no cell count is told by its beginning. -/
theorem ofArgument_of_other {argument : String} (hvalue : ∀ value, argument ≠ "--cells=" ++ value)
    (hflag : ∀ f : Flag, argument ≠ f.word) (hshort : argument ≠ "-h")
    (hhelp : argument ≠ "--help") :
    Group.ofArgument argument =
      if (textBehind? "--" argument).isSome then .unknown argument else .file argument := by
  have hnone : Flag.ofArgument? argument = none :=
    Option.eq_none_iff_forall_ne_some.mpr fun f hf => hflag f (Flag.ofArgument?_eq_some_iff.mp hf)
  simp only [Group.ofArgument, textBehind?_eq_none_iff.mpr hvalue, hnone, hshort, hhelp, or_self,
    if_false]

/-- A spelled group is read as this group, whatever stands behind it. -/
theorem Group.Spelled.groups_append {group : Group} {words : List String}
    (hspelled : group.Spelled words) (rest : List String) :
    groups (words ++ rest) = group :: groups rest := by
  cases hspelled with
  | cells value => rfl
  | cellsEquals value =>
      have hplain : "--cells=" ++ value ≠ "--cells" := by
        intro heq
        have hlength := congrArg (fun text : String => text.toList.length) heq
        simp at hlength
      rw [List.singleton_append, groups_cons hplain, Group.ofArgument,
        textBehind?_eq_some_iff.mpr rfl]
  | flag f => cases f <;> rfl
  | help => rfl
  | shortHelp => rfl
  | unknown text hcells hvalue hflag hhelp =>
      have hshort : "--" ++ text ≠ "-h" := by
        intro heq
        have hlist := congrArg String.toList heq
        simp at hlist
      rw [List.singleton_append, groups_cons hcells, ofArgument_of_other hvalue hflag hshort hhelp,
        textBehind?_eq_some_iff.mpr rfl]
      rfl
  | @file name hplain hhelp =>
      have hflag : ∀ f : Flag, name ≠ f.word := by
        rintro f rfl
        cases f with
        | debug => exact hplain "debug" rfl
        | dump => exact hplain "dump" rfl
        | noOptimize => exact hplain "no-optimize" rfl
        | profile => exact hplain "profile" rfl
        | trace => exact hplain "trace" rfl
      have hvalue : ∀ value, name ≠ "--cells=" ++ value := by
        rintro value rfl
        have hbegins : "--" ++ ("cells=" ++ value) = "--cells=" ++ value := by
          rw [← String.append_assoc]
          rfl
        exact hplain _ hbegins.symm
      rw [List.singleton_append, groups_cons (hplain "cells"),
        ofArgument_of_other hvalue hflag hhelp (hplain "help"), textBehind?_eq_none_iff.mpr hplain]
      rfl

/-- A command line is read in one way. -/
theorem groups_eq_iff {arguments : List String} {given : List Group} :
    groups arguments = given ↔ ReadAs arguments given := by
  constructor
  · rintro rfl
    fun_induction groups arguments with
    | case1 => exact .nil
    | case2 => exact .dangling
    | case3 value rest ih => exact .cons (.cells value) ih
    | case4 argument rest hdangling hvalued ih =>
        refine @ReadAs.cons _ [argument] _ _ (spelled_ofArgument ?_) ih
        rintro rfl
        cases rest with
        | nil => exact hdangling rfl rfl
        | cons value later => exact hvalued value later rfl rfl
  · intro hreads
    induction hreads with
    | nil => rfl
    | dangling => rfl
    | cons hspelled _ ih => rw [hspelled.groups_append, ih]

/-! ## What is asked for -/

/-- The file that a group names. -/
def Group.file? : Group → Option String
  | file name => some name
  | _ => none

/-- The value that a group has for the cell count. -/
def Group.cells? : Group → Option String
  | cells value => some value
  | _ => none

/-- Why a group is refused.  A cell count has to be a positive integer. -/
inductive Group.Refused : Group → UsageError → Prop where
  | danglingCells : Refused .danglingCells .missingCellCount
  | cells {value : String}
      (hvalue : ∀ length : Int, Text.readInteger? value.toList = some length → length ≤ 0) :
      Refused (.cells value) (.invalidCellCount value)
  | help : Refused .help .help
  | unknown (given : String) : Refused (.unknown given) (.unknownOption given)

/-- A group is not refused for any reason. -/
def Group.Accepted (group : Group) : Prop :=
  ∀ e, ¬ group.Refused e

/-- The error of the first group that is refused. -/
inductive FirstRefused : List Group → UsageError → Prop where
  | here {group : Group} {e : UsageError} (hrefused : group.Refused e) (later : List Group) :
      FirstRefused (group :: later) e
  | later {group : Group} {later : List Group} {e : UsageError}
      (haccepted : group.Accepted) (hlater : FirstRefused later e) :
      FirstRefused (group :: later) e

/-- The options say that a flag is set. -/
def Options.Has (o : Options) : Flag → Prop
  | .debug => o.debug = true
  | .dump => o.dump = true
  | .noOptimize => o.optimize = false
  | .profile => o.profile = true
  | .trace => o.trace = true

/-- The options tell which flags are among the groups, and the last cell count. -/
structure Options.Reflects (o : Options) (given : List Group) : Prop where
  flags : ∀ f : Flag, o.Has f ↔ .flag f ∈ given
  unset : given.filterMap Group.cells? = [] → o.length.val = 30000
  set : ∀ value, (given.filterMap Group.cells?).getLast? = some value →
    Text.readInteger? value.toList = some (o.length.val : Int)

/-- What the answer to some groups is.  How many files are named matters only if no group is
refused. -/
inductive Answers (given : List Group) : Except UsageError Request → Prop where
  | refused {e : UsageError} (hfirst : FirstRefused given e) : Answers given (.error e)
  | severalFiles (haccepted : ∀ group ∈ given, group.Accepted)
      (hfiles : 1 < (given.filterMap Group.file?).length) : Answers given (.error .severalFiles)
  | dumpWithoutFile (haccepted : ∀ group ∈ given, group.Accepted)
      (hfiles : given.filterMap Group.file? = []) (hdump : .flag .dump ∈ given) :
      Answers given (.error .dumpWithoutFile)
  | accepted {file? : Option String} {o : Options} (haccepted : ∀ group ∈ given, group.Accepted)
      (hfiles : given.filterMap Group.file? = file?.toList)
      (hdump : .flag .dump ∈ given → file? ≠ none) (hreflects : o.Reflects given) :
      Answers given (.ok ⟨file?, o⟩)

/-! ### Single groups -/

theorem cellCount?_eq_some_iff {text : String} {length : TapeLength} :
    cellCount? text = some length ↔ Text.readInteger? text.toList = some (length.val : Int) := by
  simp only [cellCount?, Option.bind_eq_some_iff, TapeLength.ofInt?_eq_some_iff]
  constructor
  · rintro ⟨value, hread, rfl⟩
    exact hread
  · intro hread
    exact ⟨_, hread, rfl⟩

theorem cellCount?_eq_none_iff {text : String} :
    cellCount? text = none ↔
      ∀ length : Int, Text.readInteger? text.toList = some length → length ≤ 0 := by
  simp only [Option.eq_none_iff_forall_ne_some, ne_eq, cellCount?_eq_some_iff]
  constructor
  · intro hnone length hread
    refine Int.not_lt.mp fun hpositive => hnone ⟨length.toNat, by omega⟩ ?_
    rw [hread, Int.toNat_of_nonneg (Int.le_of_lt hpositive)]
  · rintro hvalue ⟨length, hpositive⟩ hread
    have hnonpositive := hvalue _ hread
    simp only at hnonpositive
    omega

/-- A group is an error for the reason for which it is refused. -/
theorem add_eq_error_iff {c : Collected} {group : Group} {e : UsageError} :
    c.add group = .error e ↔ group.Refused e := by
  constructor
  · intro hadd
    cases group with
    | cells value =>
        simp only [Collected.add] at hadd
        split at hadd <;> cases hadd
        rename_i hnone
        exact .cells (cellCount?_eq_none_iff.mp hnone)
    | danglingCells =>
        cases hadd
        exact .danglingCells
    | flag f => cases hadd
    | help =>
        cases hadd
        exact .help
    | unknown given =>
        cases hadd
        exact .unknown given
    | file name => cases hadd
  · intro hrefused
    cases hrefused with
    | cells hvalue => simp only [Collected.add, cellCount?_eq_none_iff.mpr hvalue]
    | _ => rfl

theorem Group.Accepted.exists_add {group : Group} (haccepted : group.Accepted) (c : Collected) :
    ∃ d, c.add group = .ok d := by
  cases hadd : c.add group with
  | ok d => exact ⟨d, rfl⟩
  | error e => exact absurd (add_eq_error_iff.mp hadd) (haccepted e)

/-! ### Options -/

theorem Options.has_set (o : Options) (f g : Flag) : (o.set f).Has g ↔ g = f ∨ o.Has g := by
  cases f <;> cases g <;> simp [set, Has]

theorem Options.length_set (o : Options) (f : Flag) : (o.set f).length = o.length := by
  cases f <;> rfl

theorem Options.reflects_nil : ({} : Options).Reflects [] where
  flags f := by cases f <;> simp [Has]
  unset _ := rfl
  set := nofun

/-- One more group adds its flag, or puts its cell count in the place of all earlier ones. -/
theorem Options.Reflects.append {o p : Options} {done : List Group} {group : Group}
    (hreflects : o.Reflects done) (hflags : ∀ f, p.Has f ↔ group = .flag f ∨ o.Has f)
    (hkept : group.cells? = none → p.length = o.length)
    (hset : ∀ value, group.cells? = some value →
      Text.readInteger? value.toList = some (p.length.val : Int)) :
    p.Reflects (done ++ [group]) := by
  refine ⟨fun f => ?_, ?_, ?_⟩
  · rw [hflags, hreflects.flags, List.mem_append, List.mem_singleton, or_comm]
    exact or_congr_right eq_comm
  · intro hnone
    rw [List.filterMap_append, List.append_eq_nil_iff] at hnone
    rw [hkept (by simpa using hnone.2)]
    exact hreflects.unset hnone.1
  · intro value hlast
    rw [List.filterMap_append] at hlast
    cases hcells : group.cells? with
    | none =>
        rw [hkept hcells]
        exact hreflects.set value (by simpa [hcells] using hlast)
    | some given =>
        obtain rfl : given = value := by simpa [hcells] using hlast
        exact hset given hcells

theorem Options.eq_of_has {o p : Options} (hflags : ∀ f, o.Has f ↔ p.Has f)
    (hlength : o.length = p.length) : o = p := by
  have hdebug : o.debug = p.debug := Bool.eq_iff_iff.mpr (hflags .debug)
  have hdump : o.dump = p.dump := Bool.eq_iff_iff.mpr (hflags .dump)
  have hoptimize : (!o.optimize) = !p.optimize :=
    Bool.eq_iff_iff.mpr (by simpa [Has] using hflags .noOptimize)
  have hprofile : o.profile = p.profile := Bool.eq_iff_iff.mpr (hflags .profile)
  have htrace : o.trace = p.trace := Bool.eq_iff_iff.mpr (hflags .trace)
  cases o
  cases p
  simp_all

theorem Options.Reflects.unique {o p : Options} {given : List Group} (hfirst : o.Reflects given)
    (hsecond : p.Reflects given) : o = p := by
  refine eq_of_has (fun f => (hfirst.flags f).trans (hsecond.flags f).symm) (Subtype.ext ?_)
  cases hlast : (given.filterMap Group.cells?).getLast? with
  | none =>
      rw [List.getLast?_eq_none_iff] at hlast
      rw [hfirst.unset hlast, hsecond.unset hlast]
  | some value =>
      have hboth := (hfirst.set value hlast).symm.trans (hsecond.set value hlast)
      exact Int.ofNat.inj (Option.some.inj hboth)

/-! ### All groups -/

/-- What has been collected from some groups. -/
structure Collected.Collects (c : Collected) (given : List Group) : Prop where
  options : c.options.Reflects given
  files : c.files = given.filterMap Group.file?

theorem Collected.Collects.add {c d : Collected} {done : List Group} {group : Group}
    (hcollects : c.Collects done) (hadd : c.add group = .ok d) : d.Collects (done ++ [group]) := by
  cases group with
  | cells value =>
      simp only [Collected.add] at hadd
      split at hadd <;> cases hadd
      rename_i length hlength
      refine ⟨hcollects.options.append (fun f => ?_) nofun ?_, ?_⟩
      · simp only [reduceCtorEq, false_or]
        cases f <;> rfl
      · rintro _ ⟨⟩
        exact cellCount?_eq_some_iff.mp hlength
      · simp [hcollects.files, Group.file?]
  | flag f =>
      cases hadd
      refine ⟨hcollects.options.append (fun g => ?_) (fun _ => Options.length_set _ _) nofun, ?_⟩
      · rw [Options.has_set, Group.flag.injEq, eq_comm]
      · simp [hcollects.files, Group.file?]
  | file name =>
      cases hadd
      refine ⟨hcollects.options.append (fun f => ?_) (fun _ => rfl) nofun, ?_⟩
      · simp only [reduceCtorEq, false_or]
      · simp [hcollects.files, Group.file?]
  | _ => cases hadd

/-- The first group that is refused decides the error. -/
theorem FirstRefused.foldlM_add {given : List Group} {e : UsageError}
    (hfirst : FirstRefused given e) (c : Collected) :
    given.foldlM Collected.add c = .error e := by
  induction hfirst generalizing c with
  | here hrefused later =>
      rw [List.foldlM_cons, add_eq_error_iff.mpr hrefused]
      rfl
  | later haccepted _ ih =>
      obtain ⟨d, hadd⟩ := haccepted.exists_add c
      rw [List.foldlM_cons, hadd]
      exact ih d

theorem Collected.Collects.foldlM_add {given done : List Group} {c : Collected}
    (hcollects : c.Collects done) (haccepted : ∀ group ∈ given, group.Accepted) :
    ∃ d, given.foldlM Collected.add c = .ok d ∧ d.Collects (done ++ given) := by
  -- What has been collected grows by one group at a time, so the groups in front are arbitrary.
  induction given generalizing c done with
  | nil => exact ⟨c, rfl, by rwa [List.append_nil]⟩
  | cons group rest ih =>
      rw [List.forall_mem_cons] at haccepted
      obtain ⟨middle, hadd⟩ := haccepted.1.exists_add c
      obtain ⟨d, hrest, hd⟩ := ih (hcollects.add hadd) haccepted.2
      refine ⟨d, ?_, by simpa using hd⟩
      rw [List.foldlM_cons, hadd]
      exact hrest

theorem firstRefused_or_accepted (given : List Group) :
    (∃ e, FirstRefused given e) ∨ ∀ group ∈ given, group.Accepted := by
  induction given with
  | nil => exact .inr nofun
  | cons group rest ih =>
      by_cases hgroup : group.Accepted
      · rcases ih with ⟨e, hfirst⟩ | haccepted
        · exact .inl ⟨e, .later hgroup hfirst⟩
        · exact .inr (List.forall_mem_cons.mpr ⟨hgroup, haccepted⟩)
      · -- Nothing behind this group matters.
        simp only [Group.Accepted, Classical.not_forall, Classical.not_not] at hgroup
        obtain ⟨e, hrefused⟩ := hgroup
        exact .inl ⟨e, .here hrefused rest⟩

/-- The request follows from the number of files and from whether one is needed. -/
theorem Collected.request_eq (c : Collected) :
    c.request =
      if 1 < c.files.length then .error .severalFiles
      else if c.files = [] ∧ c.options.dump = true then .error .dumpWithoutFile
      else .ok ⟨c.files.head?, c.options⟩ := by
  rcases hfiles : c.files with _ | ⟨file, _ | ⟨other, rest⟩⟩ <;> simp [request, hfiles]

/-- The request of some groups. -/
def Request.ofGroups (given : List Group) : Except UsageError Request := do
  let collected ← given.foldlM Collected.add {}
  collected.request

theorem ofGroups_of_refused {given : List Group} {e : UsageError} (hfirst : FirstRefused given e) :
    Request.ofGroups given = .error e := by
  rw [Request.ofGroups, hfirst.foldlM_add]
  rfl

theorem exists_ofGroups {given : List Group} (haccepted : ∀ group ∈ given, group.Accepted) :
    ∃ c : Collected, c.Collects given ∧ Request.ofGroups given = c.request := by
  have hnone : ({} : Collected).Collects [] := ⟨Options.reflects_nil, rfl⟩
  obtain ⟨c, hfold, hcollects⟩ := hnone.foldlM_add haccepted
  refine ⟨c, hcollects, ?_⟩
  rw [Request.ofGroups, hfold]
  rfl

theorem answers_ofGroups (given : List Group) : Answers given (Request.ofGroups given) := by
  rcases firstRefused_or_accepted given with ⟨e, hfirst⟩ | haccepted
  · rw [ofGroups_of_refused hfirst]
    exact .refused hfirst
  · obtain ⟨c, hcollects, hrequest⟩ := exists_ofGroups haccepted
    rw [hrequest, c.request_eq, hcollects.files]
    split
    · rename_i hseveral
      exact .severalFiles haccepted hseveral
    · rename_i hfew
      split
      · rename_i hdump
        exact .dumpWithoutFile haccepted hdump.1 ((hcollects.options.flags .dump).mp hdump.2)
      · rename_i hdump
        refine .accepted haccepted ?_ (fun hflag hnone => hdump ?_) hcollects.options
        · rcases hfiles : given.filterMap Group.file? with _ | ⟨file, _ | ⟨other, rest⟩⟩
          · rfl
          · rfl
          · simp [hfiles] at hfew
        · exact ⟨List.head?_eq_none_iff.mp hnone, (hcollects.options.flags .dump).mpr hflag⟩

/-- Some groups have one answer. -/
theorem ofGroups_eq_iff {given : List Group} {answer : Except UsageError Request} :
    Request.ofGroups given = answer ↔ Answers given answer := by
  constructor
  · rintro rfl
    exact answers_ofGroups given
  · intro hanswers
    cases hanswers with
    | refused hfirst => exact ofGroups_of_refused hfirst
    | severalFiles haccepted hfiles =>
        obtain ⟨c, hcollects, hrequest⟩ := exists_ofGroups haccepted
        rw [hrequest, c.request_eq, hcollects.files, if_pos hfiles]
    | dumpWithoutFile haccepted hfiles hdump =>
        obtain ⟨c, hcollects, hrequest⟩ := exists_ofGroups haccepted
        have hset := (hcollects.options.flags .dump).mpr hdump
        rw [hrequest, c.request_eq, hcollects.files, hfiles, if_neg (by simp), if_pos ⟨rfl, hset⟩]
    | @accepted file? o haccepted hfiles hdump hreflects =>
        obtain ⟨c, hcollects, hrequest⟩ := exists_ofGroups haccepted
        have hfew : ¬ 1 < file?.toList.length := by cases file? <;> simp
        have hneeded : ¬ (file?.toList = [] ∧ c.options.dump = true) := by
          rintro ⟨hnone, hset⟩
          exact hdump ((hcollects.options.flags .dump).mp hset) (Option.toList_eq_nil_iff.mp hnone)
        have hhead : file?.toList.head? = file? := by cases file? <;> rfl
        rw [hrequest, c.request_eq, hcollects.files, hfiles, if_neg hfew, if_neg hneeded, hhead,
          hcollects.options.unique hreflects]

/-! ## The order of the groups -/

theorem Options.Reflects.of_perm {o : Options} {given order : List Group}
    (hreflects : o.Reflects given) (hperm : order.Perm given)
    (hcells : order.filterMap Group.cells? = given.filterMap Group.cells?) :
    o.Reflects order where
  flags f := by rw [hreflects.flags, hperm.mem_iff]
  unset := by rw [hcells]; exact hreflects.unset
  set := by rw [hcells]; exact hreflects.set

/-- An accepted command line asks for the same in another order, if the cell counts keep theirs. -/
theorem Answers.of_perm {given order : List Group} {request : Request}
    (hanswers : Answers given (.ok request)) (hperm : order.Perm given)
    (hcells : order.filterMap Group.cells? = given.filterMap Group.cells?) :
    Answers order (.ok request) := by
  cases hanswers with
  | @accepted file? o haccepted hfiles hdump hreflects =>
      have hnames := hperm.filterMap Group.file?
      rw [hfiles] at hnames
      refine .accepted (fun group hmem => haccepted group (hperm.mem_iff.mp hmem)) ?_
        (fun hflag => hdump (hperm.mem_iff.mp hflag)) (hreflects.of_perm hperm hcells)
      cases file? with
      | none => exact List.perm_nil.mp hnames
      | some file => exact List.perm_singleton.mp hnames

theorem groups_append {front : List String} (hcomplete : .danglingCells ∉ groups front)
    (back : List String) : groups (front ++ back) = groups front ++ groups back := by
  have hreads : ReadAs front (groups front) := groups_eq_iff.mp rfl
  generalize groups front = given at hreads hcomplete ⊢
  induction hreads with
  | nil => rfl
  | dangling => exact absurd (List.mem_singleton_self _) hcomplete
  | cons hspelled _ ih =>
      rw [List.append_assoc, hspelled.groups_append, ih fun hmem => hcomplete (.tail _ hmem),
        List.cons_append]

/-- A command line has one reading, and its answer is the one that the grammar gives to the groups.
Both spellings of a cell count say the same, and the order of the groups of an accepted command line
does not matter except among the cell counts. -/
theorem arguments_answered_exactly (arguments : List String) :
    ∃ given, ReadAs arguments given ∧ (∀ other, ReadAs arguments other → other = given) ∧
      (∀ answer, Request.ofArguments arguments = answer ↔ Answers given answer) ∧
      (∀ value back, .danglingCells ∉ given →
        Request.ofArguments (arguments ++ "--cells" :: value :: back) =
          Request.ofArguments (arguments ++ ("--cells=" ++ value) :: back)) ∧
      ∀ request reordered order, Request.ofArguments arguments = .ok request →
        ReadAs reordered order → order.Perm given →
        order.filterMap Group.cells? = given.filterMap Group.cells? →
        Request.ofArguments reordered = .ok request := by
  refine ⟨groups arguments, groups_eq_iff.mp rfl,
    fun other hother => (groups_eq_iff.mpr hother).symm, fun answer => ofGroups_eq_iff,
    fun value back hcomplete => ?_, ?_⟩
  · have hboth : groups ("--cells" :: value :: back) = groups (("--cells=" ++ value) :: back) :=
      ((Group.Spelled.cellsEquals value).groups_append back).symm
    rw [Request.ofArguments, Request.ofArguments, groups_append hcomplete, groups_append hcomplete,
      hboth]
  · intro request reordered order hrequest hreads hperm hcells
    have hanswers := (ofGroups_eq_iff.mp hrequest).of_perm hperm hcells
    obtain rfl := groups_eq_iff.mpr hreads
    exact ofGroups_eq_iff.mpr hanswers

/-- Of the two cell counts the last one holds, also where the flag and the file stand elsewhere. -/
theorem arguments_answered_exactly_of_two_counts :
    let arguments := ["--cells=7", "a.bf", "--dump", "--cells", "+4"]
    let given : List Group := [.cells "7", .file "a.bf", .flag .dump, .cells "+4"]
    let reordered := ["--dump", "--cells", "7", "--cells=+4", "a.bf"]
    let order : List Group := [.flag .dump, .cells "7", .cells "+4", .file "a.bf"]
    let request : Request := ⟨some "a.bf", { length := ⟨4, by decide⟩, dump := true }⟩
    ReadAs arguments given ∧ Answers given (.ok request) ∧
      Request.ofArguments arguments = .ok request ∧ ReadAs reordered order ∧ order.Perm given ∧
      Request.ofArguments reordered = .ok request ∧ .danglingCells ∉ given ∧
      Request.ofArguments (arguments ++ ["--cells", "--trace", "b.bf"]) =
        Request.ofArguments (arguments ++ ["--cells=--trace", "b.bf"]) := by
  intro arguments given reordered order request
  have hrequest : Request.ofArguments arguments = .ok request := rfl
  have hcomplete : .danglingCells ∉ given := by decide
  have horder : ReadAs reordered order := groups_eq_iff.mp rfl
  have hperm : order.Perm given := by decide
  obtain ⟨read, hread, -, hanswers, hspelled, hreordered⟩ := arguments_answered_exactly arguments
  obtain rfl : given = read := groups_eq_iff.mpr hread
  exact ⟨hread, (hanswers _).mp hrequest, hrequest, horder, hperm,
    hreordered request reordered order hrequest horder hperm rfl, hcomplete,
    hspelled "--trace" ["b.bf"] hcomplete⟩

end TapeLang.CommandLine
