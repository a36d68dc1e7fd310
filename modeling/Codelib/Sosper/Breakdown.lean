import Mathlib.Algebra.Group.Pi.Basic
import Codelib.Sosper.Script

/-!
# Codelib.Sosper.Breakdown

**The breakdowns are partitions of the same set** (`breakdown_totals`), for any list of
attendees and any country table.

All that matters of the counters are their nine totals (`Counters.totals`). A filter
answers with a verdict or with an old counter value, and in the second case it jumps to
the next round the first time it sees a key; but it has counted the entry by then, so a
round of a loop adds the same to the totals however it ends.
-/

namespace Codelib.Sosper

open Abrupt

/-- The totals the breakdowns are compared by. -/
inductive Total
  | entries
  | sosp
  | workshop
  | workshopSum
  | regtype
  | regtypeSum
  | geoSum
  | continentSum
  | company
  deriving DecidableEq

def Counters.totals (c : Counters) : Total → Nat
  | .entries => c.totalCnt
  | .sosp => c.sospCnt
  | .workshop => c.wstotalCnt
  | .workshopSum => c.workshopCnt.total
  | .regtype => c.regtypeStudent + c.regtypeNonstudent
  | .regtypeSum => c.regtypeCnt.total
  | .geoSum => c.geoCnt.total
  | .continentSum => c.continentCnt.total
  | .company => c.studentAcademics + c.nonstudentAcademics + c.industry + c.other

/-- `m` adds `d` to the totals, however it ends. -/
def Adds {α : Type} (d : Total → Nat) (m : M α) : Prop :=
  ∀ s, Outcome m s (fun _ s' => s'.totals = s.totals + d) (fun _ s' => s'.totals = s.totals + d)

/-- One for each of `ts`. -/
def oneEach (ts : List Total) : Total → Nat := fun t => if t ∈ ts then 1 else 0

/-! ### The filters -/

/-- The entry is selected by `filter_SOSP`. -/
def isSOSP (e : Entry) : Prop := matchesWord (e.field "events") "SOSP" ∨ e.field "events" = []

/-- The entry is selected by `filter_workshop`. -/
def isWorkshop (e : Entry) : Prop :=
  ["Diversity", "HotDep", "HotPower", "INFLOW", "LADIS", "PLOS", "TRIOS"].any
    (matchesWord (e.field "workshop"))

instance (e : Entry) : Decidable (isSOSP e) := inferInstanceAs (Decidable (_ ∨ _))

instance (e : Entry) : Decidable (isWorkshop e) := inferInstanceAs (Decidable (_ = true))

theorem filterRegtype_adds (e : Entry) :
    Adds (oneEach [.regtype, .regtypeSum]) (filterRegtype e) := by
  intro s
  unfold filterRegtype
  dsimp only
  split
  all_goals
    simp only [outcome_bind, outcome_modify, outcome_get, outcome_pure]
    funext t
    cases t <;> simp [Counters.totals, oneEach]
    omega

theorem countContinent_adds (name : String) :
    Adds (oneEach [.continentSum]) (countContinent name) := by
  intro s
  simp only [countContinent, outcome_bind, outcome_modify, outcome_get, outcome_pure]
  funext t
  cases t <;> simp [Counters.totals, oneEach]

theorem filterGeo_adds (countryHash : CountryHash) (e : Entry) :
    Adds (oneEach [.geoSum, .continentSum]) (filterGeo countryHash e) := by
  intro s
  unfold filterGeo
  simp only [outcome_bind, outcome_modify]
  have hgeo (t : Counters) (ht : t.totals =
      { s with geoCnt := s.geoCnt.increment (e.field "country") }.totals + oneEach [.continentSum]) :
      t.totals = s.totals + oneEach [.geoSum, .continentSum] := by
    rw [ht]
    funext t
    cases t <;> simp [Counters.totals, oneEach]
  -- the continent does not matter
  have hcount (name : String) := (countContinent_adds name
    { s with geoCnt := s.geoCnt.increment (e.field "country") }).mono
    (fun _ => hgeo) (fun _ => hgeo)
  split_ifs <;> exact hcount _

theorem filterCompany_adds (e : Entry) : Adds (oneEach [.company]) (filterCompany e) := by
  intro s
  unfold filterCompany
  simp only [outcome_bind, outcome_get]
  split_ifs
  all_goals
    simp only [outcome_bind, outcome_set, outcome_pure]
    funext t
    cases t <;> simp [Counters.totals, oneEach]
    omega

/-- A filter in its place: the verdict 0 ends the round after it has counted. -/
theorem applyFilter_adds {d : Total → Nat} {func : Entry → M Nat} {e : Entry} (h : Adds d (func e)) :
    Adds d (applyFilter func e) := by
  intro s
  refine outcome_bind.mpr ((h s).mono (fun result t ht => ?_) fun _ _ ht => ht)
  split
  · exact outcome_throw.mpr ht
  · exact outcome_pure.mpr ht

/-- `filter_SOSP` lets its entries through. -/
theorem filterSOSP_then {d : Total → Nat} {e : Entry} {m : M PUnit} (h : Adds d m) :
    Adds (if isSOSP e then d else 0) (applyFilter filterSOSP e >>= fun _ => m) := by
  intro s
  unfold applyFilter filterSOSP
  dsimp only
  by_cases he : isSOSP e
  · rw [if_pos he]
    have he' : matchesWord (e.field "events") "SOSP" ∨ e.field "events" = [] := he
    simp only [if_pos he', outcome_bind, outcome_pure, Nat.one_ne_zero, if_false]
    exact h s
  · rw [if_neg he]
    have he' : ¬ (matchesWord (e.field "events") "SOSP" ∨ e.field "events" = []) := he
    simp only [if_neg he', outcome_bind, outcome_pure, if_true, outcome_throw]
    rfl

/-! ### The loops -/

/-- What the round for `e` adds to the totals, loop by loop. -/
theorem sospLoop_adds (e : Entry) :
    Adds (oneEach [.entries] + if isSOSP e then oneEach [.sosp] else 0) (sospLoop e) := by
  intro s
  have hsosp :
      Adds (oneEach [.sosp]) (modify fun c => { c with sospCnt := c.sospCnt + 1 } : M PUnit) := by
    intro s
    rw [outcome_modify]
    funext t
    cases t <;> simp [Counters.totals, oneEach]
  have hentry (t : Counters) (ht : t.totals = { s with totalCnt := s.totalCnt + 1 }.totals +
      if isSOSP e then oneEach [.sosp] else 0) :
      t.totals = s.totals + (oneEach [.entries] + if isSOSP e then oneEach [.sosp] else 0) := by
    rw [ht, ← add_assoc]
    congr 1
    funext t
    cases t <;> simp [Counters.totals, oneEach]
  unfold sospLoop
  rw [outcome_bind, outcome_modify]
  exact (filterSOSP_then hsosp _).mono (fun _ => hentry) (fun _ => hentry)

theorem workshopLoop_adds (e : Entry) :
    Adds (if isWorkshop e then oneEach [.workshop, .workshopSum] else 0) (workshopLoop e) := by
  intro s
  unfold workshopLoop applyFilter filterWorkshop
  dsimp only
  by_cases he : isWorkshop e
  · rw [if_pos he]
    unfold isWorkshop at he
    simp only [if_pos he, outcome_bind, outcome_modify, outcome_pure, Nat.one_ne_zero, if_false]
    funext t
    cases t <;> simp [Counters.totals, oneEach]
  · rw [if_neg he]
    unfold isWorkshop at he
    simp only [if_neg he, outcome_bind, outcome_pure, if_true, outcome_throw]
    rfl

theorem regtypeLoop_adds (e : Entry) :
    Adds (if isSOSP e then oneEach [.regtype, .regtypeSum] else 0) (regtypeLoop e) :=
  filterSOSP_then (applyFilter_adds (filterRegtype_adds e))

theorem geoLoop_adds (countryHash : CountryHash) (e : Entry) :
    Adds (if isSOSP e then oneEach [.geoSum, .continentSum] else 0) (geoLoop countryHash e) :=
  filterSOSP_then (applyFilter_adds (filterGeo_adds countryHash e))

theorem companyLoop_adds (e : Entry) :
    Adds (if isSOSP e then oneEach [.company] else 0) (companyLoop e) :=
  filterSOSP_then (applyFilter_adds (filterCompany_adds e))

/-! ### The totals in the end -/

theorem sum_oneEach (p : Entry → Prop) [DecidablePred p] (ts : List Total) (l : List Entry)
    (t : Total) : (l.map fun e => if p e then oneEach ts else 0).sum t =
      if t ∈ ts then l.countP (p ·) else 0 := by
  induction l with
  | nil => simp
  | cons e l ih =>
      rw [List.map_cons, List.sum_cons, Pi.add_apply, ih, List.countP_cons]
      by_cases he : p e <;> by_cases ht : t ∈ ts <;> simp [he, ht, oneEach, Nat.add_comm]

/-- Every total is the number of the entries that are selected for it. -/
theorem breakdown_totals_eq (countryHash : CountryHash) (attendeeList : List Entry) (t : Total) :
    (breakdown countryHash attendeeList).totals t =
      if t = .entries then attendeeList.length
      else if t = .workshop ∨ t = .workshopSum then attendeeList.countP (isWorkshop ·)
      else attendeeList.countP (isSOSP ·) := by
  have hentries : (attendeeList.map fun e =>
        oneEach [.entries] + if isSOSP e then oneEach [.sosp] else 0).sum =
      attendeeList.length • oneEach [.entries] +
        (attendeeList.map fun e => if isSOSP e then oneEach [.sosp] else 0).sum := by
    rw [List.sum_map_add, List.map_const', List.sum_replicate]
  have hzero : Counters.zero.totals = 0 := by
    funext t
    cases t <;> rfl
  unfold breakdown
  dsimp only
  rw [rounds_sum Counters.totals _ companyLoop_adds,
    rounds_sum Counters.totals _ (geoLoop_adds countryHash),
    rounds_sum Counters.totals _ regtypeLoop_adds, rounds_sum Counters.totals _ workshopLoop_adds,
    rounds_sum Counters.totals _ sospLoop_adds, hzero, zero_add, hentries]
  simp only [Pi.add_apply, Pi.smul_apply, sum_oneEach]
  cases t <;> simp [oneEach]

/-- **The breakdowns are partitions of the same set.** -/
theorem breakdown_totals (countryHash : CountryHash) (attendeeList : List Entry) :
    let c := breakdown countryHash attendeeList
    c.totalCnt = attendeeList.length ∧
      c.sospCnt = c.regtypeStudent + c.regtypeNonstudent ∧
      c.sospCnt = c.regtypeCnt.total ∧
      c.sospCnt = c.geoCnt.total ∧
      c.sospCnt = c.continentCnt.total ∧
      c.sospCnt = c.studentAcademics + c.nonstudentAcademics + c.industry + c.other ∧
      c.wstotalCnt = c.workshopCnt.total := by
  intro c
  have h := breakdown_totals_eq countryHash attendeeList
  have hsosp : c.sospCnt = _ := h .sosp
  refine ⟨h .entries, hsosp.trans (h .regtype).symm, hsosp.trans (h .regtypeSum).symm,
    hsosp.trans (h .geoSum).symm, hsosp.trans (h .continentSum).symm, hsosp.trans (h .company).symm,
    (h .workshop).trans (h .workshopSum).symm⟩

end Codelib.Sosper
