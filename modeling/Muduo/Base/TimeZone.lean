/-
  Base/TimeZone.lean --- local times: `findLocaltime`, `TimeZone::toLocalTime` and
  `TimeZone::fromLocalTime` (src/muduo/base/TimeZone.cc).

  `inForce` is what the lookup is for: the type of the last transition that is not later than
  a time, and the first type before all of them.  `findLocaltime` computes it from the position
  that `lower_bound` gives (`findLocaltime_eq`), and never trips its assertion.

  `fromLocalTime` looks a reading of the local clock up by the local times of the transitions,
  which are those of the type after the change.  A reading that a later change repeats
  (`Repeated`) is therefore taken for the second one, and put right by one hour.
-/
import Muduo.Foundation.Bisection
import Muduo.Foundation.Exec
import Muduo.Base.UtcTime

set_option autoImplicit false

namespace Muduo.Base

open Muduo.Foundation

/-! ## The data -/

/-- `struct Transition`. -/
structure Transition where
  gmttime : Int
  localtime : Int
  localtimeIdx : Int
  deriving DecidableEq, Repr

/-- `struct Comp`. -/
structure Comp where
  compareGmt : Bool
  deriving DecidableEq, Repr

namespace Comp

/-- `operator()`. -/
def less (comp : Comp) (lhs rhs : Transition) : Bool :=
  if comp.compareGmt then lhs.gmttime < rhs.gmttime else lhs.localtime < rhs.localtime

/-- `equal(lhs, rhs)`. -/
def equal (comp : Comp) (lhs rhs : Transition) : Bool :=
  if comp.compareGmt then lhs.gmttime == rhs.gmttime else lhs.localtime == rhs.localtime

/-- The time that is compared. -/
def key (comp : Comp) (x : Transition) : Int :=
  if comp.compareGmt then x.gmttime else x.localtime

theorem less_iff {comp : Comp} {lhs rhs : Transition} :
    comp.less lhs rhs = true ↔ comp.key lhs < comp.key rhs := by
  cases hgmt : comp.compareGmt with
  | true => simp [less, key, hgmt]
  | false => simp [less, key, hgmt]

theorem equal_iff {comp : Comp} {lhs rhs : Transition} :
    comp.equal lhs rhs = true ↔ comp.key lhs = comp.key rhs := by
  cases hgmt : comp.compareGmt with
  | true => simp [equal, key, hgmt]
  | false => simp [equal, key, hgmt]

end Comp

/-- `struct Localtime`. -/
structure Localtime where
  gmtOffset : Int
  isDst : Bool
  arrbIdx : Int
  deriving DecidableEq, Repr

/-- `TimeZone::Data`, without the `names` that nothing reads. -/
structure ZoneData where
  transitions : List Transition
  localtimes : List Localtime
  abbreviation : List UInt8
  deriving DecidableEq, Repr

/-! ## The lookup -/

/-- The last branch of `findLocaltime`: the transition whose type is taken. -/
def findTransition (transitions : List Transition) (sentry : Transition) (comp : Comp) :
    Exec Transition :=
  let transI := lowerBound (fun x => comp.less x sentry) transitions
  match transitions[transI]? with
  | some x =>
      if comp.equal sentry x then .ok x
      else do
        assertThat (transI ≠ 0)
        readAt transitions (transI - 1)
  | none => readAt transitions (transitions.length - 1)

/-- `detail::findLocaltime(data, sentry, comp)`. -/
def findLocaltime (data : ZoneData) (sentry : Transition) (comp : Comp) : Exec Localtime :=
  if data.transitions.head?.all (comp.less sentry) then readAt data.localtimes 0
  else do
    let x ← findTransition data.transitions sentry comp
    readAt data.localtimes x.localtimeIdx

namespace ZoneData

/-- `&data.abbreviation[arrbIdx]`, up to the terminating zero; the position after the last
character holds one. -/
def abbreviationAt (data : ZoneData) (arrbIdx : Int) : Exec (List UInt8) :=
  if 0 ≤ arrbIdx ∧ arrbIdx ≤ data.abbreviation.length then
    .ok ((data.abbreviation.drop arrbIdx.toNat).takeWhile (· ≠ 0))
  else .error .outOfBounds

/-- `toLocalTime(seconds)`, on the data of a zone. -/
def toLocalTime (data : ZoneData) (seconds : Int) : Exec Tm := do
  let found ← findLocaltime data ⟨seconds, 0, 0⟩ ⟨true⟩
  let localSeconds := seconds + found.gmtOffset
  let tm_zone ← data.abbreviationAt found.arrbIdx
  return { gmtime localSeconds with
    tm_isdst := if found.isDst then 1 else 0
    tm_gmtoff := found.gmtOffset
    tm_zone := tm_zone }

/-- `seconds` after the correction for a time that says it is daylight saving time. -/
def correction (data : ZoneData) (localTm : Tm) (seconds : Int) (found : Localtime) : Exec Int :=
  if localTm.tm_isdst ≠ 0 then do
    let tryTm ← data.toLocalTime (seconds - found.gmtOffset)
    if tryTm.tm_isdst = 0 ∧ tryTm.tm_hour = localTm.tm_hour ∧ tryTm.tm_min = localTm.tm_min then
      return seconds - 3600
    else return seconds
  else return seconds

/-- `fromLocalTime(localTm)`, on the data of a zone. -/
def fromLocalTime (data : ZoneData) (localTm : Tm) : Exec Int := do
  let seconds := timegm localTm
  let found ← findLocaltime data ⟨0, seconds, 0⟩ ⟨false⟩
  let seconds ← data.correction localTm seconds found
  return seconds - found.gmtOffset

end ZoneData

/-- A `TimeZone` holds the data of its zone, or none. -/
structure TimeZone where
  data_ : Option ZoneData
  deriving DecidableEq, Repr

namespace TimeZone

/-- `valid()`. -/
def valid (zone : TimeZone) : Bool := zone.data_.isSome

/-- `assert(data_ != NULL)` and `*data_`. -/
def data (zone : TimeZone) : Exec ZoneData :=
  match zone.data_ with
  | some data => .ok data
  | none => .error .assertion

/-- `toLocalTime(seconds)`. -/
def toLocalTime (zone : TimeZone) (seconds : Int) : Exec Tm := do
  (← zone.data).toLocalTime seconds

/-- `fromLocalTime(localTm)`. -/
def fromLocalTime (zone : TimeZone) (localTm : Tm) : Exec Int := do
  (← zone.data).fromLocalTime localTm

end TimeZone

/-! ## What the lookup finds -/

namespace ZoneData

/-- The last transition whose compared time is not later than `k`. -/
def governing (data : ZoneData) (comp : Comp) (k : Int) : Option Transition :=
  data.transitions.findRev? fun x => comp.key x ≤ k

/-- The type that a transition changes to. -/
def typeOf (data : ZoneData) (x : Transition) : Option Localtime :=
  if x.localtimeIdx < 0 then none else data.localtimes[x.localtimeIdx.toNat]?

/-- The type of the last transition not later than `k`, or the first type. -/
def inForce (data : ZoneData) (comp : Comp) (k : Int) : Option Localtime :=
  match data.governing comp k with
  | some x => data.typeOf x
  | none => data.localtimes.head?

/-- Every transition changes to one of the types. -/
def Indexed (data : ZoneData) : Prop :=
  ∀ x ∈ data.transitions, 0 ≤ x.localtimeIdx ∧ x.localtimeIdx < data.localtimes.length

/-- The transitions are in the order of the compared times. -/
def Increasing (data : ZoneData) (comp : Comp) : Prop :=
  data.transitions.Pairwise fun x y => comp.key x < comp.key y

variable {data : ZoneData} {comp : Comp} {k : Int}

theorem Indexed.exists_typeOf (h : data.Indexed) {x : Transition} (hx : x ∈ data.transitions) :
    ∃ type, data.typeOf x = some type ∧ readAt data.localtimes x.localtimeIdx = .ok type := by
  obtain ⟨hpos, hlt⟩ := h x hx
  have hget := List.getElem?_eq_getElem (by omega : x.localtimeIdx.toNat < data.localtimes.length)
  refine ⟨_, ?_, readAt_eq_ok_iff.mpr ⟨hpos, hget⟩⟩
  rw [typeOf, if_neg (Int.not_lt.mpr hpos)]
  exact hget

/-- A later position has a later time. -/
theorem Increasing.key_lt (h : data.Increasing comp) {i j : Nat} {x y : Transition}
    (hx : data.transitions[i]? = some x) (hy : data.transitions[j]? = some y) (hij : i < j) :
    comp.key x < comp.key y := by
  obtain ⟨hi, hgeti⟩ := List.getElem?_eq_some_iff.mp hx
  obtain ⟨hj, hgetj⟩ := List.getElem?_eq_some_iff.mp hy
  have hlt := List.pairwise_iff_getElem.mp h i j hi hj hij
  rwa [hgeti, hgetj] at hlt

/-- It is the transition at `i` if the next one is later. -/
theorem Increasing.governing_eq (h : data.Increasing comp) {i : Nat} {x : Transition}
    (hx : data.transitions[i]? = some x) (hle : comp.key x ≤ k)
    (hnext : ∀ y, data.transitions[i + 1]? = some y → k < comp.key y) :
    data.governing comp k = some x := by
  refine findRev?_eq_some_iff.mpr ⟨i, hx, by simpa using hle, ?_⟩
  intro j y hj hy
  obtain ⟨hlt, _⟩ := List.getElem?_eq_some_iff.mp hy
  have hget := List.getElem?_eq_getElem (by omega : i + 1 < data.transitions.length)
  have hafter := hnext _ hget
  rcases Nat.lt_or_eq_of_le (Nat.succ_le_of_lt hj) with hlt' | rfl
  · have hkey := h.key_lt hget hy hlt'
    simp only [decide_eq_false_iff_not]
    omega
  · have hkey := hnext y hy
    simp only [decide_eq_false_iff_not]
    omega

theorem governing_eq_none_of_head (h : data.Increasing comp)
    (hhead : ∀ front, data.transitions.head? = some front → k < comp.key front) :
    data.governing comp k = none := by
  refine findRev?_eq_none_iff.mpr ?_
  intro x hx
  obtain ⟨i, hi⟩ := List.mem_iff_getElem?.mp hx
  have hlen : 0 < data.transitions.length := List.length_pos_of_mem hx
  have hget := List.getElem?_eq_getElem hlen
  have hfront := hhead _ ((List.head?_eq_getElem?).trans hget)
  simp only [decide_eq_false_iff_not]
  rcases Nat.eq_zero_or_pos i with rfl | hpos
  · rw [hget, Option.some.injEq] at hi
    rw [hi] at hfront
    omega
  · have hkey := h.key_lt hget hi hpos
    omega

variable {sentry : Transition}

/-- The first test of `findLocaltime` fails exactly at and after the first transition. -/
theorem head_all_less_eq_false_iff {transitions : List Transition} :
    transitions.head?.all (comp.less sentry) = false ↔
      ∃ front, transitions[0]? = some front ∧ comp.key front ≤ comp.key sentry := by
  rw [List.head?_eq_getElem?]
  cases hfront : transitions[0]? with
  | none => simp
  | some front =>
      rw [Option.all_some, ← Bool.not_eq_true, Comp.less_iff]
      simp

/-- Whatever the order of the transitions, the lookup finds one that is not later than the
sentry and does not stop: the one at the position that `lower_bound` gives, if it is at the
time of the sentry, or else the one before it. -/
theorem findTransition_ok {transitions : List Transition}
    (hfront : ∃ front, transitions[0]? = some front ∧ comp.key front ≤ comp.key sentry) :
    ∃ i x, findTransition transitions sentry comp = .ok x ∧ transitions[i]? = some x ∧
      comp.key x ≤ comp.key sentry ∧
      (i = lowerBound (fun x => comp.less x sentry) transitions ∧
          comp.key x = comp.key sentry ∨
        i + 1 = lowerBound (fun x => comp.less x sentry) transitions ∧
          ∀ y, transitions[i + 1]? = some y → comp.key sentry < comp.key y) := by
  obtain ⟨front, hzero, hle⟩ := hfront
  obtain ⟨hlen, _⟩ := List.getElem?_eq_some_iff.mp hzero
  have hbound := lowerBound_le (fun x => comp.less x sentry) transitions
  -- what is before the position is earlier than the sentry
  have hpred : lowerBound (fun x => comp.less x sentry) transitions ≠ 0 → ∃ x,
      transitions[lowerBound (fun x => comp.less x sentry) transitions - 1]? = some x ∧
        comp.key x < comp.key sentry := by
    intro hpos
    obtain ⟨x, hx, hbelow⟩ := lowerBound_pred _ _ hpos
    exact ⟨x, hx, Comp.less_iff.mp hbelow⟩
  simp only [findTransition]
  generalize hp : lowerBound (fun x => comp.less x sentry) transitions = p at hbound hpred ⊢
  cases hat : transitions[p]? with
  | none =>
      have hend : p = transitions.length := Nat.le_antisymm hbound
        (List.getElem?_eq_none_iff.mp hat)
      obtain ⟨x, hx, hlt⟩ := hpred (by omega)
      refine ⟨p - 1, x, readAt_eq_ok_iff.mpr ⟨by omega, ?_⟩, hx, by omega, Or.inr ⟨by omega, ?_⟩⟩
      · have hindex : ((transitions.length : Int) - 1).toNat = p - 1 := by omega
        rw [hindex, hx]
      · intro y hy
        rw [Nat.sub_add_cancel (by omega), hat] at hy
        exact absurd hy (by simp)
  | some x =>
      have hnotless : ¬ comp.key x < comp.key sentry := by
        have hfalse := @lowerBound_at _ (fun x => comp.less x sentry) transitions x (hp ▸ hat)
        rw [← Bool.not_eq_true, Comp.less_iff] at hfalse
        exact hfalse
      dsimp only
      by_cases heq : comp.equal sentry x = true
      · rw [if_pos heq]
        have hkey := Comp.equal_iff.mp heq
        exact ⟨p, x, rfl, hat, by omega, Or.inl ⟨rfl, hkey.symm⟩⟩
      · rw [if_neg heq]
        have hkey : comp.key sentry ≠ comp.key x := fun h => heq (Comp.equal_iff.mpr h)
        have hpos : p ≠ 0 := by
          intro hzero'
          rw [hzero', hzero, Option.some.injEq] at hat
          rw [← hat] at hnotless hkey
          omega
        obtain ⟨z, hz, hlt⟩ := hpred hpos
        rw [assertThat_of hpos, ok_bind]
        refine ⟨p - 1, z, readAt_eq_ok_iff.mpr ⟨by omega, ?_⟩, hz, by omega, Or.inr ⟨by omega, ?_⟩⟩
        · have hindex : ((p : Int) - 1).toNat = p - 1 := by omega
          rw [hindex, hz]
        · intro y hy
          rw [Nat.sub_add_cancel (by omega), hat, Option.some.injEq] at hy
          rw [← hy]
          omega

/-- In the order of the compared times it is the last one that is not later. -/
theorem findTransition_eq (h : data.Increasing comp)
    (hfront : ∃ front, data.transitions[0]? = some front ∧ comp.key front ≤ comp.key sentry) :
    ∃ x ∈ data.transitions, findTransition data.transitions sentry comp = .ok x ∧
      data.governing comp (comp.key sentry) = some x := by
  obtain ⟨i, x, hfind, hx, hle, hwhich⟩ := findTransition_ok hfront
  refine ⟨x, List.mem_of_getElem? hx, hfind, h.governing_eq hx hle ?_⟩
  intro y hy
  rcases hwhich with ⟨_, heq⟩ | ⟨_, hnext⟩
  · rw [← heq]
    exact h.key_lt hx hy (Nat.lt_succ_self i)
  · exact hnext y hy

/-- The lookup gives the type in force. -/
theorem findLocaltime_eq (hindex : data.Indexed) (hne : data.localtimes ≠ [])
    (h : data.Increasing comp) (sentry : Transition) :
    ∃ type, findLocaltime data sentry comp = .ok type ∧
      data.inForce comp (comp.key sentry) = some type := by
  unfold findLocaltime
  cases htest : data.transitions.head?.all (comp.less sentry) with
  | true =>
      have hnone := governing_eq_none_of_head h (k := comp.key sentry) (fun front hfront => by
        rw [hfront, Option.all_some] at htest
        exact Comp.less_iff.mp htest)
      obtain ⟨type, rest, hcons⟩ := List.exists_cons_of_ne_nil hne
      have htype : data.localtimes.head? = some type := by rw [hcons, List.head?_cons]
      refine ⟨type, ?_, ?_⟩
      · exact readAt_eq_ok_iff.mpr ⟨Int.le_refl 0, List.head?_eq_getElem?.symm.trans htype⟩
      · simp only [inForce, hnone]
        exact htype
  | false =>
      obtain ⟨x, hmem, hfind, hgov⟩ := findTransition_eq h (head_all_less_eq_false_iff.mp htest)
      obtain ⟨type, htype, hread⟩ := hindex.exists_typeOf hmem
      refine ⟨type, ?_, ?_⟩
      · simp only [Bool.false_eq_true, if_false, hfind, ok_bind, hread]
      · simp only [inForce, hgov, htype]

end ZoneData

/-- If every transition changes to one of the types, there is a type, and the transitions are in
the order of the compared times, the lookup gives, without tripping its assertion, the type of
the last transition not later than the sentry, and the first type if there is none. -/
theorem findLocaltime_governing {data : ZoneData} {comp : Comp} (hindex : data.Indexed)
    (hne : data.localtimes ≠ []) (h : data.Increasing comp) (sentry : Transition) :
    ∃ type, findLocaltime data sentry comp = .ok type ∧
      match data.transitions.findRev? (fun x => comp.key x ≤ comp.key sentry) with
      | some x => data.localtimes[x.localtimeIdx.toNat]? = some type
      | none => data.localtimes.head? = some type := by
  obtain ⟨type, hfind, htype⟩ := ZoneData.findLocaltime_eq hindex hne h sentry
  refine ⟨type, hfind, ?_⟩
  rw [ZoneData.inForce, ZoneData.governing] at htype
  cases hgov : data.transitions.findRev? (fun x => comp.key x ≤ comp.key sentry) with
  | none =>
      rw [hgov] at htype
      exact htype
  | some x =>
      obtain ⟨_, hx, _⟩ := findRev?_spec hgov
      have hpos := (hindex x (List.mem_of_getElem? hx)).1
      simp only [hgov, ZoneData.typeOf, Int.not_lt.mpr hpos, if_false] at htype
      exact htype

/-- A year of New York: daylight saving time from March to November 2013. -/
def newYork : ZoneData where
  transitions := [⟨1362898800, 1362884400, 0⟩, ⟨1383458400, 1383440400, 1⟩]
  localtimes := [⟨-14400, true, 0⟩, ⟨-18000, false, 4⟩]
  abbreviation := ascii "EDT" ++ 0 :: ascii "EST" ++ [0]

theorem findLocaltime_governing_newYork :
    findLocaltime newYork ⟨1383458399, 0, 0⟩ ⟨true⟩ = .ok ⟨-14400, true, 0⟩ ∧
    ∃ type, findLocaltime newYork ⟨1383458400, 0, 0⟩ ⟨true⟩ = .ok type ∧
      some ⟨-18000, false, 4⟩ = some type :=
  ⟨by decide, findLocaltime_governing (by unfold ZoneData.Indexed; decide) (by decide)
    (by unfold ZoneData.Increasing; decide) ⟨1383458400, 0, 0⟩⟩

/-! ## Reading a local time back -/

namespace ZoneData

/-- The data of a zone with transitions, as `readTimeZoneFile` fills it: in the order of both
times, and with daylight saving time before every change that lowers the offset and none after
it. -/
structure Regular (data : ZoneData) : Prop where
  nonempty : data.transitions ≠ []
  indexed : data.Indexed
  increasingGmt : data.Increasing ⟨true⟩
  increasingLocal : data.Increasing ⟨false⟩
  localtime : ∀ x ∈ data.transitions, ∀ type, data.typeOf x = some type →
    x.localtime = x.gmttime + type.gmtOffset
  lowers : ∀ (i : Nat) x y a b, data.transitions[i]? = some x → data.transitions[i + 1]? = some y →
    data.typeOf x = some a → data.typeOf y = some b → b.gmtOffset < a.gmtOffset →
      a.isDst = true ∧ b.isDst = false

/-- The abbreviation of the type exists. -/
def Named (data : ZoneData) (type : Localtime) : Prop :=
  0 ≤ type.arrbIdx ∧ type.arrbIdx ≤ data.abbreviation.length

instance (data : ZoneData) (type : Localtime) : Decidable (data.Named type) :=
  inferInstanceAs (Decidable (_ ∧ _))

/-- Some change after `t` puts the clock, which shows `reading`, back to it or before it. -/
def Repeated (data : ZoneData) (t reading : Int) : Prop :=
  ∃ x ∈ data.transitions, t < x.gmttime ∧ x.localtime ≤ reading

/-- The reading at `t` comes again one hour later: the clock was put back by one hour, and the
type in force an hour after `t` is not daylight saving time and shows the same hour and minute. -/
def AgainInOneHour (data : ZoneData) (t : Int) (type : Localtime) : Prop :=
  (∃ second, data.inForce ⟨false⟩ (t + type.gmtOffset) = some second ∧
    type.gmtOffset = second.gmtOffset + 3600) ∧
  ∃ later, data.inForce ⟨true⟩ (t + 3600) = some later ∧ data.Named later ∧
    later.isDst = false ∧
    (gmtime (t + 3600 + later.gmtOffset)).tm_hour = (gmtime (t + type.gmtOffset)).tm_hour ∧
    (gmtime (t + 3600 + later.gmtOffset)).tm_min = (gmtime (t + type.gmtOffset)).tm_min

variable {data : ZoneData} {t : Int} {type : Localtime}

theorem Regular.localtimes_ne_nil (h : data.Regular) : data.localtimes ≠ [] := by
  obtain ⟨x, rest, hcons⟩ := List.exists_cons_of_ne_nil h.nonempty
  obtain ⟨hpos, hlt⟩ := h.indexed x (by rw [hcons]; exact List.mem_cons_self)
  intro hnil
  rw [hnil, List.length_nil] at hlt
  omega

theorem Regular.find (h : data.Regular) (comp : Comp) (sentry : Transition) :
    ∃ type, findLocaltime data sentry comp = .ok type ∧
      data.inForce comp (comp.key sentry) = some type := by
  refine findLocaltime_eq h.indexed h.localtimes_ne_nil ?_ sentry
  obtain ⟨gmt⟩ := comp
  cases gmt with
  | true => exact h.increasingGmt
  | false => exact h.increasingLocal

/-! ### Which transition governs -/

theorem governing_spec {comp : Comp} {k : Int} {x : Transition}
    (hx : data.governing comp k = some x) :
    ∃ i : Nat, data.transitions[i]? = some x ∧ comp.key x ≤ k ∧
      ∀ j y, i < j → data.transitions[j]? = some y → k < comp.key y := by
  obtain ⟨i, hget, hle, hlast⟩ := findRev?_spec hx
  refine ⟨i, hget, by simpa using hle, ?_⟩
  intro j y hj hy
  have hnot := hlast j y hj hy
  simp only [decide_eq_false_iff_not] at hnot
  omega

/-- At and after the first transition some transition governs. -/
theorem exists_governing (comp : Comp) {k : Int} {x : Transition} (hx : x ∈ data.transitions)
    (hle : comp.key x ≤ k) : ∃ y, data.governing comp k = some y := by
  cases hgov : data.governing comp k with
  | some y => exact ⟨y, rfl⟩
  | none =>
      have hfalse := findRev?_eq_none_iff.mp hgov x hx
      simp only [decide_eq_false_iff_not] at hfalse
      exact absurd hle hfalse

theorem Regular.typeOf_governing (h : data.Regular) {comp : Comp} {k : Int} {x : Transition}
    (hx : data.governing comp k = some x) (htype : data.inForce comp k = some type) :
    data.typeOf x = some type ∧ x.localtime = x.gmttime + type.gmtOffset := by
  simp only [inForce, hx] at htype
  obtain ⟨i, hget, _⟩ := governing_spec hx
  exact ⟨htype, h.localtime x (List.mem_of_getElem? hget) type htype⟩

/-- A later transition has a later time of either kind. -/
theorem Regular.le_of_le (h : data.Regular) {i j : Nat} {x y : Transition}
    (hx : data.transitions[i]? = some x) (hy : data.transitions[j]? = some y) (hij : i ≤ j) :
    x.gmttime ≤ y.gmttime ∧ x.localtime ≤ y.localtime := by
  rcases Nat.lt_or_eq_of_le hij with hlt | rfl
  · have hgmt : x.gmttime < y.gmttime := h.increasingGmt.key_lt hx hy hlt
    have hlocal : x.localtime < y.localtime := h.increasingLocal.key_lt hx hy hlt
    omega
  · rw [hx, Option.some.injEq] at hy
    rw [hy]
    omega

section Reading

variable (h : data.Regular) {x : Transition} {second : Localtime}
  (hx : data.governing ⟨true⟩ t = some x) (htype : data.inForce ⟨true⟩ t = some type)
  (hsecond : data.inForce ⟨false⟩ (t + type.gmtOffset) = some second)

include h hx htype in
/-- The reading is not before the local time of the transition that governs. -/
theorem Regular.exists_governing_local :
    x.localtime ≤ t + type.gmtOffset ∧
      ∃ z, data.governing ⟨false⟩ (t + type.gmtOffset) = some z := by
  obtain ⟨i, hget, hle, _⟩ := governing_spec hx
  obtain ⟨_, hlocal⟩ := h.typeOf_governing hx htype
  change x.gmttime ≤ t at hle
  have hreading : x.localtime ≤ t + type.gmtOffset := by omega
  exact ⟨hreading, exists_governing ⟨false⟩ (List.mem_of_getElem? hget) hreading⟩

include h hx htype hsecond

/-- A reading that is not repeated is looked up under the offset it was made with. -/
theorem Regular.offset_of_not_repeated (hnot : ¬ data.Repeated t (t + type.gmtOffset)) :
    second.gmtOffset = type.gmtOffset := by
  obtain ⟨hreading, z, hz⟩ := h.exists_governing_local hx htype
  obtain ⟨i, hgetx, _, hlastx⟩ := governing_spec hx
  obtain ⟨j, hgetz, hlez, hlastz⟩ := governing_spec hz
  obtain ⟨_, hlocalx⟩ := h.typeOf_governing hx htype
  obtain ⟨_, hlocalz⟩ := h.typeOf_governing hz hsecond
  change z.localtime ≤ t + type.gmtOffset at hlez
  -- both lookups end at the same transition
  have hgmt : z.gmttime ≤ t := by
    by_contra hlt
    exact hnot ⟨z, List.mem_of_getElem? hgetz, Int.not_le.mp hlt, hlez⟩
  have hji : j ≤ i := by
    by_contra hlt
    have hafter : t < z.gmttime := hlastx j z (Nat.not_le.mp hlt) hgetz
    omega
  have hij : i ≤ j := by
    by_contra hlt
    have hafter : t + type.gmtOffset < x.localtime := hlastz i x (Nat.not_le.mp hlt) hgetx
    omega
  obtain rfl : i = j := Nat.le_antisymm hij hji
  rw [hgetx, Option.some.injEq] at hgetz
  rw [hgetz] at hlocalx
  omega

/-- A reading that is repeated was made in daylight saving time, and is looked up under a lower
offset. -/
theorem Regular.of_repeated (hrepeated : data.Repeated t (t + type.gmtOffset)) :
    second.gmtOffset < type.gmtOffset ∧ type.isDst = true := by
  obtain ⟨_, z, hz⟩ := h.exists_governing_local hx htype
  obtain ⟨i, hgetx, hlex, hlastx⟩ := governing_spec hx
  obtain ⟨j, hgetz, hlez, hlastz⟩ := governing_spec hz
  obtain ⟨htypex, _⟩ := h.typeOf_governing hx htype
  obtain ⟨_, hlocalz⟩ := h.typeOf_governing hz hsecond
  change x.gmttime ≤ t at hlex
  change z.localtime ≤ t + type.gmtOffset at hlez
  obtain ⟨w, hw, hafter, hback⟩ := hrepeated
  obtain ⟨m, hgetw⟩ := List.mem_iff_getElem?.mp hw
  constructor
  · have hmj : m ≤ j := by
      by_contra hlt
      have hlate : t + type.gmtOffset < w.localtime := hlastz m w (Nat.not_le.mp hlt) hgetw
      omega
    have hle := (h.le_of_le hgetw hgetz hmj).1
    omega
  · -- already the change after the one that governs lowers the offset
    have him : i < m := by
      by_contra hle
      have hle' := (h.le_of_le hgetw hgetx (Nat.not_lt.mp hle)).1
      omega
    obtain ⟨hm, _⟩ := List.getElem?_eq_some_iff.mp hgetw
    have hgety := List.getElem?_eq_getElem (by omega : i + 1 < data.transitions.length)
    have hlater : t < data.transitions[i + 1].gmttime := hlastx (i + 1) _ (by omega) hgety
    have hle := (h.le_of_le hgety hgetw (by omega)).2
    have hmem := List.mem_of_getElem? hgety
    obtain ⟨b, hb, _⟩ := h.indexed.exists_typeOf hmem
    have hlocal := h.localtime _ hmem b hb
    exact (h.lowers i _ _ type b hgetx hgety htypex hb (by omega)).1

end Reading

/-! ### The two conversions -/

/-- The broken-down time of `t` under a type. -/
def reading (t : Int) (type : Localtime) (zone : List UInt8) : Tm :=
  { gmtime (t + type.gmtOffset) with
    tm_isdst := if type.isDst then 1 else 0
    tm_gmtoff := type.gmtOffset
    tm_zone := zone }

theorem timegm_reading (t : Int) (type : Localtime) (zone : List UInt8) :
    timegm (reading t type zone) = t + type.gmtOffset := timegm_gmtime _

theorem reading_isdst_eq_zero_iff {zone : List UInt8} :
    (reading t type zone).tm_isdst = 0 ↔ type.isDst = false := by
  cases hdst : type.isDst with
  | true => simp [reading, hdst]
  | false => simp [reading, hdst]

theorem toLocalTime_of_named
    (hfind : findLocaltime data ⟨t, 0, 0⟩ ⟨true⟩ = .ok type) (hnamed : data.Named type) :
    ∃ zone, data.toLocalTime t = .ok (reading t type zone) := by
  obtain ⟨zone, hzone⟩ : ∃ zone, data.abbreviationAt type.arrbIdx = .ok zone :=
    ⟨_, if_pos hnamed⟩
  refine ⟨zone, ?_⟩
  simp only [toLocalTime, hfind, ok_bind, hzone]
  rfl

theorem toLocalTime_of_not_named
    (hfind : findLocaltime data ⟨t, 0, 0⟩ ⟨true⟩ = .ok type) (hnamed : ¬ data.Named type) :
    data.toLocalTime t = .error .outOfBounds := by
  have hzone : data.abbreviationAt type.arrbIdx = .error .outOfBounds := if_neg hnamed
  simp only [toLocalTime, hfind, ok_bind, hzone, error_bind]

theorem fromLocalTime_reading {second : Localtime} {zone : List UInt8}
    (hfind : findLocaltime data ⟨0, t + type.gmtOffset, 0⟩ ⟨false⟩ = .ok second) :
    data.fromLocalTime (reading t type zone) =
      (data.correction (reading t type zone) (t + type.gmtOffset) second >>= fun seconds =>
        .ok (seconds - second.gmtOffset)) := by
  simp only [fromLocalTime, timegm_reading, hfind, ok_bind]
  rfl

/-- Nothing is corrected where the lookup gives the offset of the reading. -/
theorem correction_of_offset {second : Localtime} {zone : List UInt8}
    (htm : data.toLocalTime t = .ok (reading t type zone))
    (hoffset : second.gmtOffset = type.gmtOffset) :
    data.correction (reading t type zone) (t + type.gmtOffset) second =
      .ok (t + type.gmtOffset) := by
  unfold correction
  by_cases hdst : (reading t type zone).tm_isdst = 0
  · rw [if_neg (not_not_intro hdst)]
    rfl
  · have hback : t + type.gmtOffset - second.gmtOffset = t := by omega
    rw [if_pos hdst, hback, htm, ok_bind, if_neg (fun hall => hdst hall.1)]
    rfl

/-- The hour that is taken off is right where the reading comes again in one hour. -/
theorem Regular.readBack_of_lower (h : data.Regular) {second : Localtime} {zone : List UInt8}
    (hfind : findLocaltime data ⟨0, t + type.gmtOffset, 0⟩ ⟨false⟩ = .ok second)
    (hsecond : data.inForce ⟨false⟩ (t + type.gmtOffset) = some second)
    (hlower : second.gmtOffset < type.gmtOffset) (hdst : type.isDst = true) :
    data.fromLocalTime (reading t type zone) = .ok t ↔ data.AgainInOneHour t type := by
  obtain ⟨later, hfindLater, hlater⟩ :=
    h.find ⟨true⟩ ⟨t + type.gmtOffset - second.gmtOffset, 0, 0⟩
  change data.inForce ⟨true⟩ (t + type.gmtOffset - second.gmtOffset) = some later at hlater
  generalize hu : t + type.gmtOffset - second.gmtOffset = u at hfindLater hlater
  have hagain : data.AgainInOneHour t type ↔
      type.gmtOffset = second.gmtOffset + 3600 ∧ data.Named later ∧ later.isDst = false ∧
        (gmtime (u + later.gmtOffset)).tm_hour = (gmtime (t + type.gmtOffset)).tm_hour ∧
        (gmtime (u + later.gmtOffset)).tm_min = (gmtime (t + type.gmtOffset)).tm_min := by
    constructor
    · rintro ⟨⟨second', hsecond', hhour⟩, later', hlater', hall⟩
      rw [hsecond, Option.some.injEq] at hsecond'
      rw [← hsecond'] at hhour
      obtain rfl : u = t + 3600 := by omega
      rw [hlater, Option.some.injEq] at hlater'
      rw [hlater']
      exact ⟨hhour, hall⟩
    · rintro ⟨hhour, hall⟩
      obtain rfl : u = t + 3600 := by omega
      exact ⟨⟨second, hsecond, hhour⟩, later, hlater, hall⟩
  have hisdst : (reading t type zone).tm_isdst ≠ 0 := by
    rw [ne_eq, reading_isdst_eq_zero_iff, hdst]
    decide
  rw [fromLocalTime_reading hfind, correction, if_pos hisdst, hu, hagain]
  by_cases hnamed : data.Named later
  · obtain ⟨zone', htry⟩ := toLocalTime_of_named hfindLater hnamed
    rw [htry, ok_bind]
    by_cases hcorrect : (reading u later zone').tm_isdst = 0 ∧
        (reading u later zone').tm_hour = (reading t type zone).tm_hour ∧
        (reading u later zone').tm_min = (reading t type zone).tm_min
    · rw [if_pos hcorrect]
      change (Except.ok _ : Exec Int) = _ ↔ _
      rw [Except.ok.injEq]
      constructor
      · intro hback
        exact ⟨by omega, hnamed, reading_isdst_eq_zero_iff.mp hcorrect.1, hcorrect.2⟩
      · rintro ⟨hhour, _⟩
        omega
    · rw [if_neg hcorrect]
      change (Except.ok _ : Exec Int) = _ ↔ _
      rw [Except.ok.injEq]
      constructor
      · intro hback
        omega
      · rintro ⟨_, _, hstandard, hsame⟩
        exact absurd ⟨reading_isdst_eq_zero_iff.mpr hstandard, hsame⟩ hcorrect
  · rw [toLocalTime_of_not_named hfindLater hnamed]
    constructor
    · intro herror
      exact absurd herror (by simp)
    · rintro ⟨_, hnamed', _⟩
      exact absurd hnamed' hnamed

end ZoneData

/-- Whether `fromLocalTime` of `toLocalTime` is the time itself, for the data of any zone and any
time not before the first transition.  The abbreviation of the type in force must exist; the
reading must not be repeated by a later change, or must come again in just one hour. -/
theorem fromLocalTime_toLocalTime_iff {data : ZoneData} (h : data.Regular) {t : Int}
    (ht : ∃ first ∈ data.transitions, first.gmttime ≤ t) :
    ((TimeZone.mk (some data)).toLocalTime t >>= (TimeZone.mk (some data)).fromLocalTime) = .ok t ↔
      ∃ type, data.inForce ⟨true⟩ t = some type ∧ data.Named type ∧
        (¬ data.Repeated t (t + type.gmtOffset) ∨ data.AgainInOneHour t type) := by
  obtain ⟨first, hfirst, hle⟩ := ht
  obtain ⟨x, hx⟩ := ZoneData.exists_governing ⟨true⟩ hfirst hle
  obtain ⟨type, hfind, htype⟩ := h.find ⟨true⟩ ⟨t, 0, 0⟩
  change data.inForce ⟨true⟩ t = some type at htype
  change (data.toLocalTime t >>= fun tm => data.fromLocalTime tm) = _ ↔ _
  have hcondition : (∃ type', data.inForce ⟨true⟩ t = some type' ∧ data.Named type' ∧
      (¬ data.Repeated t (t + type'.gmtOffset) ∨ data.AgainInOneHour t type')) ↔
      data.Named type ∧ (¬ data.Repeated t (t + type.gmtOffset) ∨ data.AgainInOneHour t type) := by
    rw [htype]
    simp
  rw [hcondition]
  by_cases hnamed : data.Named type
  · obtain ⟨zone, htm⟩ := ZoneData.toLocalTime_of_named hfind hnamed
    obtain ⟨second, hfindSecond, hsecond⟩ := h.find ⟨false⟩ ⟨0, t + type.gmtOffset, 0⟩
    change data.inForce ⟨false⟩ (t + type.gmtOffset) = some second at hsecond
    rw [htm, ok_bind]
    by_cases hrepeated : data.Repeated t (t + type.gmtOffset)
    · obtain ⟨hlower, hdst⟩ := h.of_repeated hx htype hsecond hrepeated
      rw [h.readBack_of_lower hfindSecond hsecond hlower hdst]
      simp [hnamed, hrepeated]
    · have hoffset := h.offset_of_not_repeated hx htype hsecond hrepeated
      rw [ZoneData.fromLocalTime_reading hfindSecond,
        ZoneData.correction_of_offset htm hoffset, ok_bind, Except.ok.injEq]
      simp only [hnamed, hrepeated, not_false_eq_true, true_or, and_true, iff_true]
      omega
  · rw [ZoneData.toLocalTime_of_not_named hfind hnamed]
    simp [hnamed]

/-- The data of two transitions, each to a type of its own. -/
theorem regular_pair {g l g' l' : Int} {a b : Localtime} (text : List UInt8) (hg : g < g')
    (hl : l < l') (ha : l = g + a.gmtOffset) (hb : l' = g' + b.gmtOffset)
    (hlowers : b.gmtOffset < a.gmtOffset → a.isDst = true ∧ b.isDst = false) :
    ZoneData.Regular ⟨[⟨g, l, 0⟩, ⟨g', l', 1⟩], [a, b], text⟩ where
  nonempty := by simp
  indexed := by simp [ZoneData.Indexed]
  increasingGmt := by simpa [ZoneData.Increasing, Comp.key] using hg
  increasingLocal := by simpa [ZoneData.Increasing, Comp.key] using hl
  localtime := by simp [ZoneData.typeOf, ha, hb]
  lowers := by
    intro i x y a' b' hx hy ha' hb' hlower
    match i with
    | 0 =>
        obtain rfl : _ = x := Option.some.inj hx
        obtain rfl : _ = y := Option.some.inj hy
        obtain rfl : a = a' := Option.some.inj ha'
        obtain rfl : b = b' := Option.some.inj hb'
        exact hlowers hlower
    | i + 1 => exact absurd hy (by simp)

/-- The last second of daylight saving time, whose reading comes again in one hour. -/
theorem fromLocalTime_toLocalTime_newYork :
    newYork.Repeated 1383458399 (1383458399 - 14400) ∧
    ((TimeZone.mk (some newYork)).toLocalTime 1383458399 >>=
      (TimeZone.mk (some newYork)).fromLocalTime) = .ok 1383458399 := by
  refine ⟨⟨⟨1383458400, 1383440400, 1⟩, by decide, by decide, by decide⟩, ?_⟩
  refine (fromLocalTime_toLocalTime_iff
    (regular_pair _ (by decide) (by decide) (by decide) (by decide) (by decide))
    ⟨⟨1362898800, 1362884400, 0⟩, by decide, by decide⟩).mpr ?_
  refine ⟨⟨-14400, true, 0⟩, by decide, by decide, Or.inr ⟨?_, ?_⟩⟩
  · exact ⟨⟨-18000, false, 4⟩, by decide, by decide⟩
  · exact ⟨⟨-18000, false, 4⟩, by decide, by decide, by decide, by decide, by decide⟩

/-- A year of Lord Howe Island, where the clock changes by half an hour. -/
def lordHowe : ZoneData where
  transitions := [⟨1538839800, 1538879400, 0⟩, ⟨1554562800, 1554600600, 1⟩]
  localtimes := [⟨39600, true, 0⟩, ⟨37800, false, 4⟩]
  abbreviation := ascii "+11" ++ 0 :: ascii "+1030" ++ [0]

/-- The last second of daylight saving time is read back half an hour early. -/
theorem half_hour_read_back_early :
    lordHowe.Regular ∧ (∃ first ∈ lordHowe.transitions, first.gmttime ≤ 1554562799) ∧
    ((TimeZone.mk (some lordHowe)).toLocalTime 1554562799 >>=
      (TimeZone.mk (some lordHowe)).fromLocalTime) = .ok (1554562799 - 1800) :=
  ⟨regular_pair _ (by decide) (by decide) (by decide) (by decide) (by decide),
    ⟨⟨1538839800, 1538879400, 0⟩, by decide, by decide⟩, by decide⟩

end Muduo.Base
