import Mathlib.Data.List.DropRight
import TapeLang.Proofs.Profile

/-!
# The order of a ranking

A body outranks another one if its count is higher, or if the counts are equal and it was recorded
earlier for the first time (`Outranks`).  A ranking lists every recorded body once, and each of them
outranks all that stand behind it.

Two facts carry this.  The counts are kept in the order of the first records: this is an invariant
of the records made so far (`FirstSeen`), kept by one more record.  And the sort does not change the
order of entries with equal counts (`pairwise_mergeSort_of_ties`).

No two entries outrank each other, so their order follows from the entries alone.  That is why one
more record of a body leaves the others in their order (`filter_ranking_record`).
-/

namespace TapeLang.Profile

/-! ## Ties in a sorted list -/

/-- What holds between each element of a list and all later ones still holds in the sorted list
between elements that compare equal. -/
theorem pairwise_mergeSort_of_ties {α : Type} {le : α → α → Bool} {rel : α → α → Prop}
    (htrans : ∀ a b c, le a b → le b c → le a c) (htotal : ∀ a b, le a b || le b a)
    {entries : List α} (hrel : entries.Pairwise rel) :
    (entries.mergeSort le).Pairwise fun a b => le a b ∧ (le b a → rel a b) := by
  induction entries with
  | nil => simp
  | cons a rest ih =>
      -- The first element goes between those that are strictly smaller and the others.
      obtain ⟨front, back, hsorted, hrest, hfront⟩ := List.mergeSort_cons htrans htotal a rest
      rw [List.pairwise_cons] at hrel
      have hothers := ih hrel.2
      have hle := List.pairwise_mergeSort htrans htotal (a :: rest)
      rw [hrest, List.pairwise_append] at hothers
      rw [hsorted, List.pairwise_append, List.pairwise_cons] at hle
      rw [hsorted, List.pairwise_append, List.pairwise_cons]
      refine ⟨hothers.1, ⟨fun b hb => ⟨hle.2.1.1 b hb, fun _ => ?_⟩, hothers.2.1⟩,
        fun b hb c hc => ?_⟩
      · have hmem : b ∈ rest.mergeSort le := hrest ▸ List.mem_append_right front hb
        exact hrel.1 b (List.mem_mergeSort.mp hmem)
      · rcases List.mem_cons.mp hc with rfl | hc
        · refine ⟨hle.2.2 b hb c List.mem_cons_self, fun htie => ?_⟩
          have hstrict := hfront b hb
          rw [htie] at hstrict
          cases hstrict
        · exact hothers.2.2 b hb c hc

/-! ## The order of the first records -/

/-- The bodies of a profile, in the order of their counts. -/
def bodies (p : Profile) : List String :=
  p.counts.map Prod.fst

/-- A list has the recorded bodies, each of them once, in the order of their first records. -/
structure FirstSeen (listed recorded : List String) : Prop where
  mem_iff : ∀ body, body ∈ listed ↔ body ∈ recorded
  order : listed.Pairwise fun first second => recorded.idxOf first < recorded.idxOf second

variable {listed recorded : List String}

theorem FirstSeen.nodup (hseen : FirstSeen listed recorded) : listed.Nodup :=
  hseen.order.imp fun hless hsame => Nat.ne_of_lt hless (congrArg recorded.idxOf hsame)

theorem FirstSeen.record (hseen : FirstSeen listed recorded) (body : String) :
    FirstSeen (if body ∈ listed then listed else listed ++ [body]) (recorded ++ [body]) := by
  have horder : listed.Pairwise fun first second =>
      (recorded ++ [body]).idxOf first < (recorded ++ [body]).idxOf second := by
    refine hseen.order.imp_of_mem fun hfirst hsecond hless => ?_
    rwa [List.idxOf_append_of_mem ((hseen.mem_iff _).mp hfirst),
      List.idxOf_append_of_mem ((hseen.mem_iff _).mp hsecond)]
  split
  · rename_i hbody
    refine ⟨fun other => ?_, horder⟩
    have hlisted := hseen.mem_iff other
    rw [List.mem_append, List.mem_singleton, ← hlisted]
    exact ⟨.inl, Or.rec id fun hsame => hsame ▸ hbody⟩
  · rename_i hbody
    refine ⟨fun other => ?_, ?_⟩
    · rw [List.mem_append, List.mem_append, hseen.mem_iff]
    · rw [List.pairwise_append]
      refine ⟨horder, List.pairwise_singleton _ _, fun first hfirst second hsecond => ?_⟩
      rw [List.mem_singleton.mp hsecond]
      have hrecorded := (hseen.mem_iff first).mp hfirst
      rw [hseen.mem_iff] at hbody
      calc (recorded ++ [body]).idxOf first
          = recorded.idxOf first := List.idxOf_append_of_mem hrecorded
        _ < recorded.length := List.idxOf_lt_length_of_mem hrecorded
        _ ≤ (recorded ++ [body]).idxOf body := by
          rw [List.idxOf_append, if_neg hbody]
          exact Nat.le_add_left _ _

theorem bodies_bump (body : String) (entries : List (String × Nat)) :
    (bump body entries).map Prod.fst =
      if body ∈ entries.map Prod.fst then entries.map Prod.fst
      else entries.map Prod.fst ++ [body] := by
  induction entries with
  | nil => simp [bump]
  | cons entry rest ih =>
      rw [bump]
      split
      · rename_i hbody
        simp [hbody]
      · rename_i hbody
        rw [List.map_cons, ih]
        by_cases hrest : body ∈ rest.map Prod.fst
        · have hsome : body ∈ (entry :: rest).map Prod.fst := List.mem_cons_of_mem _ hrest
          rw [if_pos hrest, if_pos hsome, List.map_cons]
        · have hnone : body ∉ (entry :: rest).map Prod.fst :=
            List.not_mem_cons_of_ne_of_not_mem (Ne.symm hbody) hrest
          rw [if_neg hrest, if_neg hnone, List.map_cons, List.cons_append]

theorem bodies_record (p : Profile) (body : String) :
    (p.record body).bodies = if body ∈ p.bodies then p.bodies else p.bodies ++ [body] :=
  bodies_bump body p.counts

theorem firstSeen_recordAll {p : Profile} (hseen : FirstSeen p.bodies recorded)
    (later : List String) : FirstSeen (p.recordAll later).bodies (recorded ++ later) := by
  induction later generalizing p recorded with
  | nil => rwa [List.append_nil]
  | cons body rest ih =>
      have hbody : FirstSeen (p.record body).bodies (recorded ++ [body]) := by
        rw [bodies_record]
        exact hseen.record body
      have hrest := ih hbody
      rwa [List.append_assoc, List.singleton_append] at hrest

/-! ## The counts of a profile -/

theorem mem_iff_countIn {entries : List (String × Nat)} (hnodup : (entries.map Prod.fst).Nodup)
    (body : String) (count : Nat) :
    (body, count) ∈ entries ↔ body ∈ entries.map Prod.fst ∧ count = countIn body entries := by
  induction entries with
  | nil => simp
  | cons entry rest ih =>
      obtain ⟨other, found⟩ := entry
      rw [List.map_cons, List.nodup_cons] at hnodup
      rw [List.mem_cons, ih hnodup.2, List.map_cons, List.mem_cons, countIn]
      by_cases hsame : other = body
      · have hbody : body ∉ rest.map Prod.fst := hsame ▸ hnodup.1
        simp [hsame, hbody]
      · simp [hsame, Ne.symm hsame]

theorem total_recordAll (p : Profile) (recorded : List String) (select : String → Bool) :
    (p.recordAll recorded).total select = p.total select + recorded.countP select := by
  induction recorded generalizing p with
  | nil => rfl
  | cons body rest ih =>
      have hrest : (p.recordAll (body :: rest)).total select =
          (p.record body).total select + rest.countP select := ih (p.record body)
      rw [hrest, total_record, List.countP_cons, Nat.add_right_comm, Nat.add_assoc]

/-! ## The ranking -/

/-- The count is higher, or it is the same and the body was recorded earlier for the first time. -/
def Outranks (recorded : List String) (first second : String × Nat) : Prop :=
  second.2 < first.2 ∨
    second.2 = first.2 ∧ recorded.idxOf first.1 < recorded.idxOf second.1

theorem Outranks.asymm {first second : String × Nat} (hfirst : Outranks recorded first second) :
    ¬ Outranks recorded second first := by
  unfold Outranks at *
  omega

theorem pairwise_ranking {p : Profile} (hseen : FirstSeen p.bodies recorded) :
    p.ranking.Pairwise (Outranks recorded) := by
  have horder := List.pairwise_map.mp hseen.order
  refine (pairwise_mergeSort_of_ties (fun a b c => ?_) (fun a b => ?_) horder).imp ?_
  · simp only [decide_eq_true_eq]
    omega
  · simp only [Bool.or_eq_true, decide_eq_true_eq]
    omega
  · simp only [decide_eq_true_eq, Outranks]
    omega

theorem Outranks.append {first second : String × Nat} (hranks : Outranks recorded first second)
    (hfirst : first.1 ∈ recorded) (hsecond : second.1 ∈ recorded) (later : List String) :
    Outranks (recorded ++ later) first second := by
  rwa [Outranks, List.idxOf_append_of_mem hfirst, List.idxOf_append_of_mem hsecond]

theorem filter_bump (body : String) (entries : List (String × Nat)) :
    (bump body entries).filter (·.1 ≠ body) = entries.filter (·.1 ≠ body) := by
  induction entries with
  | nil => simp [bump]
  | cons entry rest ih =>
      rw [bump]
      split
      · rename_i hbody
        simp [hbody]
      · rename_i hbody
        rw [List.filter_cons_of_pos (by simpa using hbody),
          List.filter_cons_of_pos (by simpa using hbody), ih]

/-- One more record of a body leaves the entries of all others as they are, in the same order. -/
theorem filter_ranking_record {p : Profile} (hseen : FirstSeen p.bodies recorded) (body : String) :
    (p.record body).ranking.filter (·.1 ≠ body) = p.ranking.filter (·.1 ≠ body) := by
  have hlater : FirstSeen (p.record body).bodies (recorded ++ [body]) :=
    firstSeen_recordAll hseen [body]
  have hperm : ((p.record body).ranking.filter (·.1 ≠ body)).Perm
      (p.ranking.filter (·.1 ≠ body)) := by
    have hcounts := ((p.record body).ranking_perm.filter (·.1 ≠ body))
    rw [record, filter_bump] at hcounts
    exact hcounts.trans (p.ranking_perm.filter _).symm
  refine List.Perm.eq_of_pairwise (fun _ _ _ _ hfirst hsecond => absurd hsecond hfirst.asymm)
    ((pairwise_ranking hlater).filter _) (List.Pairwise.filter _ ?_) hperm
  refine (pairwise_ranking hseen).imp_of_mem fun hfirst hsecond hranks => ?_
  have hmem : ∀ entry ∈ p.ranking, entry.1 ∈ recorded := fun entry hentry =>
    (hseen.mem_iff _).mp (List.mem_map_of_mem (p.ranking_perm.mem_iff.mp hentry))
  exact hranks.append (hmem _ hfirst) (hmem _ hsecond) [body]

/-! ## The front of the ranking -/

/-- A limit counts from the front or, if it is negative, from the end. -/
theorem mostCommon_some (p : Profile) (limit : Int) :
    p.mostCommon (some limit) =
      if limit < 0 then p.ranking.rdrop limit.natAbs else p.ranking.take limit.toNat := by
  simp only [mostCommon, Offset.bound]
  split
  · rw [List.rdrop]
    congr 1
    omega
  · rw [List.take_eq_take_iff]
    omega

/-- The count in a line of a report is written as a plain number. -/
theorem reportLine_eq (body : String) (count : Nat) :
    reportLine (body, count) = body ++ ", " ++ toString count := by
  rw [reportLine, Decimal.text, Decimal.sign_natCast, String.empty_append]
  rfl

/-! ## What a profile of some records shows -/

/-- The profile of some records, made in this order. -/
def ofRecords (recorded : List String) : Profile :=
  ({} : Profile).recordAll recorded

/-- A list ranks the recorded bodies: it has each of them once, with the number of its records, in
the order in which they outrank each other. -/
structure Ranks (recorded : List String) (ranked : List (String × Nat)) : Prop where
  nodup : (ranked.map Prod.fst).Nodup
  mem_iff : ∀ body count,
    (body, count) ∈ ranked ↔ body ∈ recorded ∧ count = recorded.count body
  order : ranked.Pairwise (Outranks recorded)
  total : (ranked.map Prod.snd).sum = recorded.length

theorem firstSeen_ofRecords (recorded : List String) :
    FirstSeen (ofRecords recorded).bodies recorded := by
  have hempty : FirstSeen ({} : Profile).bodies [] := ⟨fun _ => Iff.rfl, .nil⟩
  exact firstSeen_recordAll hempty recorded

theorem ofRecords_append (recorded : List String) (body : String) :
    ofRecords (recorded ++ [body]) = (ofRecords recorded).record body := by
  rw [ofRecords, recordAll_append]
  rfl

theorem ranks_ranking (recorded : List String) : Ranks recorded (ofRecords recorded).ranking := by
  have hseen := firstSeen_ofRecords recorded
  have hperm := (ofRecords recorded).ranking_perm
  have hcount : ∀ body, countIn body (ofRecords recorded).counts = recorded.count body :=
    fun body => (count_recordAll {} recorded body).trans (Nat.zero_add _)
  refine ⟨(hperm.map Prod.fst).nodup_iff.mpr hseen.nodup, fun body count => ?_,
    pairwise_ranking hseen, ?_⟩
  · rw [hperm.mem_iff, mem_iff_countIn hseen.nodup, hcount, ← bodies, hseen.mem_iff]
  · have htotal := total_recordAll {} recorded fun _ => true
    rw [List.countP_true, total, totalIn, List.filter_true] at htotal
    rw [(hperm.map Prod.snd).sum_nat]
    exact htotal.trans (Nat.zero_add _)

/-- Without a limit, the recorded bodies are ranked by their counts and their first records.  Limits
cut off the front or the end of the ranking, a report has one line for each entry, and one more
record changes nothing in the order of the other bodies. -/
theorem ranking_counts_records (recorded : List String) :
    Ranks recorded ((ofRecords recorded).mostCommon none) ∧
    (∀ limit : Int, (ofRecords recorded).mostCommon (some limit) =
      if limit < 0 then ((ofRecords recorded).mostCommon none).rdrop limit.natAbs
      else ((ofRecords recorded).mostCommon none).take limit.toNat) ∧
    (∀ limit, (ofRecords recorded).report limit =
      ((ofRecords recorded).mostCommon limit).map fun entry =>
        entry.1 ++ ", " ++ toString entry.2) ∧
    ∀ body, ((ofRecords (recorded ++ [body])).mostCommon none).filter (·.1 ≠ body) =
      ((ofRecords recorded).mostCommon none).filter (·.1 ≠ body) := by
  refine ⟨ranks_ranking recorded, mostCommon_some _, fun limit => ?_, fun body => ?_⟩
  · exact List.map_congr_left fun entry _ => reportLine_eq entry.1 entry.2
  · rw [ofRecords_append]
    exact filter_ranking_record (firstSeen_ofRecords recorded) body

-- Two of the three counts are equal, and a negative limit drops the end.
example : (ofRecords ["c", "a", "b", "a", "b"]).report (some (-1)) = ["a, 2", "b, 2"] := by cbv

end TapeLang.Profile
