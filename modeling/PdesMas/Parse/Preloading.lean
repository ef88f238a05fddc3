import PdesMas.Lp.RangeSummary
import PdesMas.Messages.StoredValue

/-!
The variables that are preloaded on the CLPs, and the range of the points of each
CLP. A point that raises the maximum of the range of its CLP is not looked at for
the minimum.
-/

namespace PdesMas
open TextStream

/-- The arguments of `preload_variable`. -/
structure Preload where
  type : String
  variableId : SsvId
  v : List Char
  clpId : Nat

/-- The initialisor while variables are preloaded. -/
structure PreloadingInitialisor extends Initialisor where
  numberOfClps : Nat
  clpToRangeMap : Std.TreeMap Nat Range

namespace Range

/-- A point after the first one. -/
def extend (range : Range) (pv : Point) : Range :=
  let max := range.maxRangeValue
  let min := range.minRangeValue
  if max.x < pv.x ∨ max.y < pv.y then
    { range with
      maxRangeValue :=
        ⟨if max.x > pv.x then max.x else pv.x, if max.y > pv.y then max.y else pv.y⟩ }
  else if min.x > pv.x ∨ max.y > pv.y then
    { range with
      minRangeValue :=
        ⟨if min.x < pv.x then min.x else pv.x, if min.y < pv.y then min.y else pv.y⟩ }
  else range

def record (range : Option Range) (pv : Point) : Option Range :=
  match range with
  | none => some ⟨pv, pv⟩
  | some range => some (range.extend pv)

end Range

/-- The type that an object is created for. -/
def valueType? (type : String) : Option PdesmasType :=
  if type = "INT" then some .VALUEINT
  else if type = "LONG" then some .VALUELONG
  else if type = "DOUBLE" then some .VALUEDOUBLE
  else if type = "POINT" then some .VALUEPOINT
  else if type = "STRING" then some .VALUESTRING
  else none

/-- `SetValue`. A text without a value of the type leaves the object undefined. -/
def setValue (fmt : DoubleFormat) (type : PdesmasType) (value : List Char) :
    Option AbstractValue :=
  match type with
  | .VALUEINT => (parse (extractSigned 31) value).map .valueINT
  | .VALUEDOUBLE => (parse fmt.scan value).map .valueDOUBLE
  | .VALUEPOINT => (parse Point.deserialise value).map .valuePOINT
  | .VALUESTRING => some (.valueSTRING (String.ofList ((parse extractWord value).getD [])))
  | .VALUELONG => (parse (extractSigned 63) value).map .valueLONG
  | _ => none

section Boxes

/-- The point is above all the others in one coordinate. -/
def Raises (earlier : List Point) (p : Point) : Prop :=
  (∀ q ∈ earlier, q.x < p.x) ∨ ∀ q ∈ earlier, q.y < p.y

instance (earlier : List Point) (p : Point) : Decidable (Raises earlier p) :=
  inferInstanceAs (Decidable (_ ∨ _))

def notRaising (earlier : List Point) : List Point → List Point
  | [] => []
  | p :: rest =>
      if Raises earlier p then notRaising (earlier ++ [p]) rest
      else p :: notRaising (earlier ++ [p]) rest

/-- The points that are looked at for the minimum: the first one, and those that do not
raise the maximum when they come. -/
def lookedAt : List Point → List Point
  | [] => []
  | p :: rest => p :: notRaising [p] rest

/-- No point is below, in a coordinate, all that are looked at. -/
def LowestLookedAt (points : List Point) : Prop :=
  ∀ p ∈ points, (∃ q ∈ lookedAt points, q.x ≤ p.x) ∧ ∃ q ∈ lookedAt points, q.y ≤ p.y

instance (points : List Point) : Decidable (LowestLookedAt points) :=
  inferInstanceAs (Decidable (∀ p ∈ points, _))

theorem notRaising_subset (earlier rest : List Point) : notRaising earlier rest ⊆ rest := by
  induction rest generalizing earlier with
  | nil => exact List.Subset.refl _
  | cons p rest ih =>
      rw [notRaising]
      split
      · exact fun q hq => List.mem_cons_of_mem p (ih _ hq)
      · exact List.cons_subset_cons p (ih _)

theorem lookedAt_subset (points : List Point) : lookedAt points ⊆ points := by
  cases points with
  | nil => exact List.Subset.refl _
  | cons p rest => exact List.cons_subset_cons p (notRaising_subset [p] rest)

variable {points kept : List Point} {range : Range}

/-- The maximum is that of the points, the minimum that of the ones looked at. -/
structure Tracks (points kept : List Point) (range : Range) : Prop where
  maxX : IsGreatest {v | ∃ p ∈ points, p.x = v} range.maxRangeValue.x
  maxY : IsGreatest {v | ∃ p ∈ points, p.y = v} range.maxRangeValue.y
  minX : IsLeast {v | ∃ p ∈ kept, p.x = v} range.minRangeValue.x
  minY : IsLeast {v | ∃ p ∈ kept, p.y = v} range.minRangeValue.y

theorem tracks_singleton (p : Point) : Tracks [p] [p] p.range := by
  constructor <;> simp [Point.range]

theorem Tracks.raises_iff (h : Tracks points kept range) (p : Point) :
    Raises points p ↔ range.maxRangeValue.x < p.x ∨ range.maxRangeValue.y < p.y := by
  have hgreatest : ∀ (f : Point → Int) {b : Int}, IsGreatest {v | ∃ q ∈ points, f q = v} b →
      ((∀ q ∈ points, f q < f p) ↔ b < f p) := by
    intro f b hb
    obtain ⟨⟨q, hq, rfl⟩, hupper⟩ := hb
    exact ⟨fun hall => hall q hq, fun hlt q' hq' => (hupper ⟨q', hq', rfl⟩).trans_lt hlt⟩
  exact or_congr (hgreatest Point.x h.maxX) (hgreatest Point.y h.maxY)

/-- One more point. -/
theorem Tracks.extend (h : Tracks points kept range) (hkept : kept ⊆ points) (p : Point) :
    Tracks (points ++ [p]) (if Raises points p then kept else kept ++ [p]) (range.extend p) := by
  have hmaxX := isGreatest_concat h.maxX p
  have hmaxY := isGreatest_concat h.maxY p
  have hminX := isLeast_concat h.minX p
  have hminY := isLeast_concat h.minY p
  have hgreater : ∀ a b : Int, max b a = if a > b then a else b := by grind
  have hless : ∀ a b : Int, min b a = if a < b then a else b := by grind
  simp only [Range.extend]
  by_cases hp : range.maxRangeValue.x < p.x ∨ range.maxRangeValue.y < p.y
  · rw [if_pos ((h.raises_iff p).mpr hp), if_pos hp]
    rw [hgreater] at hmaxX hmaxY
    exact ⟨hmaxX, hmaxY, h.minX, h.minY⟩
  · rw [if_neg (mt (h.raises_iff p).mp hp), if_neg hp]
    obtain ⟨hx, hy⟩ := not_or.mp hp
    rw [max_eq_right (not_lt.mp hx)] at hmaxX
    rw [max_eq_right (not_lt.mp hy)] at hmaxY
    by_cases hlower : range.minRangeValue.x > p.x ∨ range.maxRangeValue.y > p.y
    · rw [if_pos hlower]
      rw [hless] at hminX hminY
      exact ⟨hmaxX, hmaxY, hminX, hminY⟩
    · -- the point has the greatest second coordinate, so that it is not below the least
      rw [if_neg hlower]
      obtain ⟨hx', hy'⟩ := not_or.mp hlower
      obtain ⟨⟨q, hq, hqy⟩, _⟩ := h.minY
      have hle : range.minRangeValue.y ≤ p.y := by
        rw [← hqy]
        exact (h.maxY.2 ⟨q, hkept hq, rfl⟩).trans (not_lt.mp hy')
      rw [min_eq_right (not_lt.mp hx')] at hminX
      rw [min_eq_right hle] at hminY
      exact ⟨hmaxX, hmaxY, hminX, hminY⟩

/-- The points that come after `points`. -/
theorem Tracks.foldl_extend (h : Tracks points kept range) (hkept : kept ⊆ points)
    (rest : List Point) :
    Tracks (points ++ rest) (kept ++ notRaising points rest) (rest.foldl Range.extend range) := by
  induction rest generalizing points kept range with
  | nil =>
      rw [notRaising, List.append_nil, List.append_nil]
      exact h
  | cons p rest ih =>
      have hstep := h.extend hkept p
      rw [notRaising, List.append_cons points p rest]
      split at hstep
      · next hp =>
        rw [if_pos hp]
        exact ih hstep fun q hq => List.mem_append_left [p] (hkept hq)
      · next hp =>
        rw [if_neg hp, List.append_cons kept]
        exact ih hstep (List.append_subset.mpr
          ⟨fun q hq => List.mem_append_left [p] (hkept hq), List.subset_append_right points [p]⟩)

theorem Tracks.isBox_iff (h : Tracks points kept range) (hkept : kept ⊆ points) :
    Range.IsBox (points.map Point.range) range ↔
      ∀ p ∈ points, (∃ q ∈ kept, q.x ≤ p.x) ∧ ∃ q ∈ kept, q.y ≤ p.y := by
  have hsets := setOf_exists_mem_map points
  have hx := isLeast_iff_of_subset h.minX hkept
  have hy := isLeast_iff_of_subset h.minY hkept
  constructor
  · intro hbox p hp
    have hminX := hbox.minX
    have hminY := hbox.minY
    rw [hsets] at hminX hminY
    exact ⟨hx.mp hminX p hp, hy.mp hminY p hp⟩
  · intro hlowest
    constructor <;> rw [hsets]
    · exact hx.mpr fun p hp => (hlowest p hp).1
    · exact hy.mpr fun p hp => (hlowest p hp).2
    · exact h.maxX
    · exact h.maxY

theorem foldl_record_cons (p : Point) (rest : List Point) :
    (p :: rest).foldl Range.record none = some (rest.foldl Range.extend p.range) :=
  List.foldl_hom some fun _ _ => rfl

/-- The range recorded for points is their box exactly if the lowest ones are looked at. -/
theorem summaryOf_record_iff (points : List Point) :
    RangeClp.SummaryOf (points.map Point.range)
      ((points.foldl Range.record none).getD .sentinel) ↔ LowestLookedAt points := by
  cases points with
  | nil => exact iff_of_true rfl nofun
  | cons p rest =>
      have htracks := (tracks_singleton p).foldl_extend (List.Subset.refl _) rest
      rw [foldl_record_cons, Option.getD_some]
      exact htracks.isBox_iff (lookedAt_subset (p :: rest))

end Boxes

namespace PreloadingInitialisor

variable {fmt : DoubleFormat}

def create (numberOfClps : Nat) : PreloadingInitialisor :=
  ⟨⟨∅, ∅, ∅⟩, numberOfClps, ∅⟩

/-- What is done with the value. Only a value of the type `POINT` is a point. -/
def preloadValue (init : PreloadingInitialisor) (ssvId : SsvId) (value : AbstractValue)
    (clpId : Nat) : PreloadingInitialisor where
  clpSsvIdValueMap := init.clpSsvIdValueMap.insertIfNew ssvId value
  clpToSsvMap :=
    init.clpToSsvMap.insert clpId ((init.clpToSsvMap[clpId]?).getD [] ++ [ssvId])
  alpToClpMap := init.alpToClpMap
  numberOfClps := init.numberOfClps
  clpToRangeMap :=
    match value.point? with
    | some pv => init.clpToRangeMap.alter clpId fun range => Range.record range pv
    | none => init.clpToRangeMap

/-- A call with another type is only logged. -/
def preloadVariable (fmt : DoubleFormat) (init : PreloadingInitialisor) (call : Preload) :
    Option PreloadingInitialisor :=
  match valueType? call.type with
  | none => some init
  | some type =>
      (setValue fmt type call.v).map fun value =>
        init.preloadValue call.variableId value call.clpId

def finalise (init : PreloadingInitialisor) : PreloadingInitialisor :=
  { init with
    clpToRangeMap :=
      (List.range init.numberOfClps).foldl (fun m i => m.insertIfNew i .sentinel)
        init.clpToRangeMap }

end PreloadingInitialisor

section Calls
open PreloadingInitialisor

variable {fmt : DoubleFormat} {init init' : PreloadingInitialisor} {call : Preload}
  {calls : List Preload} {p : Point}

/-- The point of a call with the type `POINT`. -/
def Preload.point? (fmt : DoubleFormat) (call : Preload) : Option Point := do
  let type ← valueType? call.type
  let value ← setValue fmt type call.v
  value.point?

/-- The points that are preloaded on a CLP. -/
def preloaded (fmt : DoubleFormat) (calls : List Preload) (clpId : Nat) : List Point :=
  calls.filterMap fun call => if call.clpId = clpId then call.point? fmt else none

/-- The call that a simulation makes for a point. -/
def Preload.ofPoint (ssvId : SsvId) (v : Point) (clpId : Nat) : Preload :=
  ⟨"POINT", ssvId, v.serialise, clpId⟩

theorem setValue_point (h : p.InRange) :
    setValue fmt .VALUEPOINT p.serialise = some (.valuePOINT p) := by
  have hread : Reads AtEnd Point.deserialise p.serialise p := h.reads
  rw [setValue, hread.parse rfl, Option.map_some]

theorem preloadVariable_ofPoint (h : p.InRange) (init : PreloadingInitialisor) (ssvId : SsvId)
    (clpId : Nat) :
    init.preloadVariable fmt (.ofPoint ssvId p clpId) =
      some (init.preloadValue ssvId (.valuePOINT p) clpId) := by
  have hvalue := @setValue_point fmt p h
  simp [preloadVariable, Preload.ofPoint, valueType?, hvalue]

/-- Points are preloaded without fail. -/
theorem exists_foldlM_ofPoint
    (h : ∀ call ∈ calls, ∃ ssvId p clpId, p.InRange ∧ call = .ofPoint ssvId p clpId)
    (init : PreloadingInitialisor) :
    ∃ init', calls.foldlM (preloadVariable fmt) init = some init' := by
  induction calls generalizing init with
  | nil => exact ⟨init, rfl⟩
  | cons call calls ih =>
      obtain ⟨ssvId, p, clpId, hp, rfl⟩ := h call List.mem_cons_self
      obtain ⟨init', hinit'⟩ := ih (fun call hcall => h call (List.mem_cons_of_mem _ hcall))
        (init.preloadValue ssvId (.valuePOINT p) clpId)
      refine ⟨init', ?_⟩
      rw [List.foldlM_cons, preloadVariable_ofPoint hp]
      exact hinit'

theorem mem_preloaded {clpId : Nat} :
    p ∈ preloaded fmt calls clpId ↔
      ∃ call ∈ calls, call.clpId = clpId ∧ call.point? fmt = some p := by
  simp [preloaded]

/-- One call records its point, if it has one, on its CLP. -/
theorem getElem?_preloadVariable (h : init.preloadVariable fmt call = some init') (k : Nat) :
    init'.clpToRangeMap[k]? =
      (preloaded fmt [call] k).foldl Range.record init.clpToRangeMap[k]? ∧
      init'.numberOfClps = init.numberOfClps := by
  rw [preloadVariable] at h
  cases htype : valueType? call.type with
  | none =>
      rw [htype] at h
      cases h
      simp [preloaded, Preload.point?, htype]
  | some type =>
      rw [htype] at h
      obtain ⟨value, hvalue, rfl⟩ := Option.map_eq_some_iff.mp h
      have hpoint : call.point? fmt = value.point? := by
        simp [Preload.point?, htype, hvalue]
      refine ⟨?_, rfl⟩
      simp only [preloadValue, preloaded, List.filterMap_cons, List.filterMap_nil, hpoint]
      cases hp : value.point? with
      | none => simp
      | some pv =>
          rw [Std.TreeMap.getElem?_alter]
          by_cases hk : call.clpId = k
          · subst hk
            simp
          · simp [hk]

theorem getElem?_preloaded (h : calls.foldlM (preloadVariable fmt) init = some init') (k : Nat) :
    init'.clpToRangeMap[k]? =
      (preloaded fmt calls k).foldl Range.record init.clpToRangeMap[k]? ∧
      init'.numberOfClps = init.numberOfClps := by
  induction calls generalizing init with
  | nil =>
      cases h
      exact ⟨rfl, rfl⟩
  | cons call calls ih =>
      obtain ⟨next, hcall, hcalls⟩ := Option.bind_eq_some_iff.mp h
      obtain ⟨hrange, hnumber⟩ := getElem?_preloadVariable hcall k
      obtain ⟨hranges, hnumbers⟩ := ih hcalls
      refine ⟨?_, hnumbers.trans hnumber⟩
      have hsplit : preloaded fmt (call :: calls) k =
          preloaded fmt [call] k ++ preloaded fmt calls k := by
        simp only [preloaded, ← List.filterMap_append, List.singleton_append]
      rw [hranges, hrange, hsplit, List.foldl_append]

theorem getElem?_finalise (init : PreloadingInitialisor) (k : Nat) :
    init.finalise.clpToRangeMap[k]? =
      if k < init.numberOfClps then some (init.clpToRangeMap[k]?.getD .sentinel)
      else init.clpToRangeMap[k]? := by
  rw [finalise]
  dsimp only
  induction init.numberOfClps with
  | zero => simp
  | succ n ih =>
      rw [List.range_succ, List.foldl_append, List.foldl_cons, List.foldl_nil,
        Std.TreeMap.getElem?_insertIfNew]
      by_cases hk : n = k
      · subst hk
        rw [if_neg (lt_irrefl n)] at ih
        rw [if_pos (Nat.lt_succ_self n)]
        have hmem := Std.TreeMap.mem_iff_isSome_getElem?
          (t := (List.range n).foldl (fun m i => m.insertIfNew i .sentinel) init.clpToRangeMap)
          (a := n)
        rw [ih] at hmem
        cases hn : init.clpToRangeMap[n]? with
        | none =>
            rw [hn] at hmem
            rw [if_pos ⟨Std.compare_self, fun hin => nomatch hmem.mp hin⟩, Option.getD_none]
        | some range =>
            rw [hn] at hmem
            rw [if_neg fun hnew => hnew.2 (hmem.mpr rfl), ih, hn, Option.getD_some]
      · have hlt : k < n + 1 ↔ k < n := by omega
        simp only [Std.compare_eq_iff_eq, hk, false_and, if_false, ih, hlt]

/-- The ends of a recorded range are those of points. -/
theorem mem_of_record_eq_some {points : List Point} {range : Range}
    (h : points.foldl Range.record none = some range) :
    ∃ p ∈ points, ∃ q ∈ points, range.minRangeValue.x = p.x ∧ range.maxRangeValue.x = q.x := by
  cases points with
  | nil => cases h
  | cons p rest =>
      have htracks := (tracks_singleton p).foldl_extend (List.Subset.refl _) rest
      have hrange : rest.foldl Range.extend p.range = range := by
        rw [foldl_record_cons] at h
        exact Option.some.inj h
      rw [hrange] at htracks
      obtain ⟨a, ha, hmin⟩ := htracks.minX.1
      obtain ⟨b, hb, hmax⟩ := htracks.maxX.1
      exact ⟨a, lookedAt_subset (p :: rest) ha, b, hb, hmin.symm, hmax.symm⟩

theorem clpToRangeMap_finalise {numberOfClps : Nat}
    (hrun : calls.foldlM (preloadVariable fmt) (create numberOfClps) = some init) (k : Nat) :
    init.finalise.clpToRangeMap[k]? =
      if k < numberOfClps then some (((preloaded fmt calls k).foldl Range.record none).getD .sentinel)
      else (preloaded fmt calls k).foldl Range.record none := by
  obtain ⟨hrange, hnumber⟩ := getElem?_preloaded hrun k
  have hempty : (create numberOfClps).clpToRangeMap[k]? = none := by simp [create]
  rw [getElem?_finalise, hrange, hnumber, hempty, create]

end Calls

end PdesMas
