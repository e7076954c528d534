import CheckCost.Proofs.FileRanking
import CheckCost.Proofs.FiniteReport

/-!
The items of a group: its costliest metrics, the costliest first, and of equally costly ones those that come
first in the catalog. Each item tells what its metric tells.
-/
namespace CheckCost

open OrderedDuration Outcome

/-! Milliseconds of doubles. -/

namespace Duration

open Number Float.Model Float.Model.UnpackedFloat

theorem unpack_pack_infinity (s : Sign) : (Float.Model.pack (.infinity s)).unpack = .infinity s := by
  cases s <;> rfl

theorem div_thousand_infinity (s : Sign) :
    UnpackedFloat.div Format.binary64 (.infinity s) (1000.0 : Float).toModel.unpack = .infinity s := by
  cases s <;> rfl

theorem unpack_toMillis_infinity {x : Float} {s : Sign} (infinite : x.toModel.unpack = .infinity s) :
    (toMillis x : Float).toModel.unpack = .infinity s := by
  have quotient : (toMillis x : Float).toModel = Float.Model.pack
      (UnpackedFloat.div Format.binary64 x.toModel.unpack (1000.0 : Float).toModel.unpack) := rfl
  rw [quotient, infinite, div_thousand_infinity, unpack_pack_infinity]

/-- Infinite doubles stay as they are, and others are divided and rounded. -/
theorem level_toMillis {x : Float} (number : x.isNaN = false) :
    (toMillis x : Float).isNaN = false ∧
      ((∃ s, level x = signFactor s * 2 ^ (1024 : ℤ) ∧ level (toMillis x) = level x) ∨
        ∃ v, value? x = some v ∧ value? (toMillis x) = some (rounded (v / 1000))) := by
  cases value : value? x with
  | some v =>
    have millis := toMillis_value value
    exact ⟨isNaN_of_value? millis, Or.inr ⟨v, rfl, millis⟩⟩
  | none =>
    have isNaN (y : Float) : y.isNaN = y.toModel.unpack.isNaN := rfl
    rw [isNaN] at number
    rw [value?_eq] at value
    cases unpacked : x.toModel.unpack with
    | infinity s =>
      have millis := unpack_toMillis_infinity unpacked
      rw [isNaN, level, level, millis, unpacked]
      exact ⟨rfl, Or.inl ⟨s, rfl, rfl⟩⟩
    | notANumber =>
      rw [unpacked] at number
      cases number
    | zero s =>
      rw [unpacked] at value
      cases value
    | finite s m e pos =>
      rw [unpacked] at value
      cases value

/-- An infinite double lies to all finite ones in the same way. -/
theorem infinite_le_iff (s : Sign) {v w : ℚ} (smallV : |v| < 2 ^ (1024 : ℤ)) (smallW : |w| < 2 ^ (1024 : ℤ)) :
    (signFactor s * 2 ^ (1024 : ℤ) ≤ v ↔ signFactor s * 2 ^ (1024 : ℤ) ≤ w) ∧
      (v ≤ signFactor s * 2 ^ (1024 : ℤ) ↔ w ≤ signFactor s * 2 ^ (1024 : ℤ)) := by
  generalize (2 : ℚ) ^ (1024 : ℤ) = top at smallV smallW ⊢
  rw [abs_lt] at smallV smallW
  cases s with
  | negative =>
    simp only [signFactor]
    constructor <;> constructor <;> intro _ <;> linarith
  | positive =>
    simp only [signFactor]
    constructor <;> constructor <;> intro _ <;> linarith

theorem toMillis_mono {x y : Float} (numberX : x.isNaN = false) (numberY : y.isNaN = false)
    (le : level x ≤ level y) : ¬ (toMillis y : Float) < toMillis x := by
  obtain ⟨millisX, shapeX⟩ := level_toMillis numberX
  obtain ⟨millisY, shapeY⟩ := level_toMillis numberY
  rw [lt_iff_level millisY millisX, not_lt]
  rcases shapeX with ⟨s, infiniteX, sameX⟩ | ⟨v, valueX, quotientX⟩
  · rcases shapeY with ⟨t, infiniteY, sameY⟩ | ⟨w, valueY, quotientY⟩
    · rwa [sameX, sameY]
    · rw [infiniteX, level_eq valueY] at le
      rw [sameX, infiniteX, level_eq quotientY]
      exact (infinite_le_iff s (value?_lt valueY) (value?_lt quotientY)).1.mp le
  · rcases shapeY with ⟨t, infiniteY, sameY⟩ | ⟨w, valueY, quotientY⟩
    · rw [infiniteY, level_eq valueX] at le
      rw [sameY, infiniteY, level_eq quotientX]
      exact (infinite_le_iff t (value?_lt valueX) (value?_lt quotientX)).2.mp le
    · rw [level_eq valueX, level_eq valueY] at le
      rw [level_eq quotientX, level_eq quotientY]
      exact rounded_mono (div_le_div_of_nonneg_right le (by norm_num))

end Duration

variable {D : Type} [Duration D]

namespace Ranking

omit [Duration D] in
/-- The metric is one of the group with that key. -/
def belongs (strategy : Strategy) (key : String) (metric : Metric D) : Bool :=
  match strategy with
  | .files => metric.path = key
  | .symbols => metric.isDependency = decide (key = "dependencies")

omit [Duration D] in
/-- The metrics of a group, each with its place among all metrics. -/
def placed (strategy : Strategy) (key : String) (metrics : List (Metric D)) : List (Metric D × Nat) :=
  metrics.zipIdx.filter fun placed => belongs strategy key placed.1

/-- The first one does not cost less, and if it costs as much it has the earlier place. -/
def Leads (first second : Metric D × Nat) : Prop :=
  Duration.below first.1.duration second.1.duration = false ∧
    (Duration.below second.1.duration first.1.duration = false → first.2 < second.2)

end Ranking

structure RankedItem.Describes (item : RankedItem D) (metric : Metric D) : Prop where
  duration : item.duration = Duration.toMillis metric.duration
  name : item.name = metric.name
  path : item.path = metric.path
  line : item.line = metric.declaration.start.line
  column : item.column = metric.declaration.start.character

/-- The group lists the first of its members, which are arranged by falling duration and then by place. -/
structure RankedGroup.ListsTop (limit : Nat) (members arranged : List (Metric D × Nat))
    (group : RankedGroup D) : Prop where
  complete : arranged.Perm members
  ordered : arranged.Pairwise Ranking.Leads
  distinct : (arranged.map (·.2)).Nodup
  count : group.count = members.length
  length : group.items.length = min limit group.count
  listed : List.Forall₂ (fun item member => item.Describes member.1) group.items (arranged.take limit)
  falling : group.items.Pairwise fun upper lower => Duration.below upper.duration lower.duration = false
  omitted : ∀ shown ∈ arranged.take limit, ∀ hidden ∈ arranged.drop limit, Ranking.Leads shown hidden

namespace Ranking

section Members

omit [Duration D]

theorem placed_members (strategy : Strategy) (key : String) (metrics : List (Metric D)) :
    (placed strategy key metrics).map (·.1) = metrics.filter (belongs strategy key) := by
  have all : metrics.zipIdx.map (·.1) = metrics := List.zipIdx_map_fst 0 metrics
  conv_rhs => rw [← all, List.filter_map]
  rfl

theorem placed_pairwise (strategy : Strategy) (key : String) (metrics : List (Metric D)) :
    (placed strategy key metrics).Pairwise fun a b => a.2 < b.2 := by
  have places : (metrics.zipIdx.map (·.2)).Pairwise (· < ·) := by
    rw [List.zipIdx_map_snd]
    exact List.pairwise_lt_range'
  exact (List.pairwise_map.mp places).filter _

end Members

/-- The members of a group are the metrics that belong to its key, in their order. -/
theorem members_of_mem_groups {strategy : Strategy} {limit : Int} {metrics : List (Metric D)}
    {group : String × List (Metric D)} (member : group ∈ groups strategy limit metrics) :
    group.2 = metrics.filter (belongs strategy group.1) := by
  cases strategy with
  | files => exact (isGrouping_byFile metrics).members group (mem_byFile_of_mem member)
  | symbols =>
    have origin : group ∈ byOrigin metrics := member
    simp only [byOrigin, List.mem_cons, List.not_mem_nil, or_false] at origin
    rcases origin with rfl | rfl
    · refine List.filter_congr ?_
      intro metric _
      simp [belongs]
    · refine List.filter_congr ?_
      intro metric _
      simp [belongs]

theorem byDuration_map_fst (items : List (Metric D × Nat)) :
    (byDuration (fun placed => placed.1.duration) items).map (·.1) =
      byDuration Metric.duration (items.map (·.1)) := by
  unfold byDuration
  refine List.map_mergeSort ?_
  intro a _ b _
  rfl

theorem describes_item (metric : Metric D) : (item metric).Describes metric := ⟨rfl, rfl, rfl, rfl, rfl⟩

theorem items_placed (strategy : Strategy) (key : String) {limit : Int} (nonneg : 0 ≤ limit)
    (metrics : List (Metric D)) :
    items limit (metrics.filter (belongs strategy key)) =
      ((byDuration (fun member => member.1.duration) (placed strategy key metrics)).take limit.toNat).map
        fun member => item member.1 := by
  rw [items, upTo_of_nonneg nonneg, ← placed_members, ← byDuration_map_fst, ← List.map_take, List.map_map]
  rfl

variable [OrderedDuration D]

theorem leads_of_place {first second : Metric D × Nat}
    (numberFirst : IsNumber first.1.duration) (numberSecond : IsNumber second.1.duration)
    (lies : place second.1.duration < place first.1.duration ∨
      place second.1.duration = place first.1.duration ∧ first.2 < second.2) : Leads first second := by
  unfold Leads
  rw [← Bool.not_eq_true, ← Bool.not_eq_true, below_iff numberFirst numberSecond,
    below_iff numberSecond numberFirst]
  rcases lies with less | ⟨same, earlier⟩
  · exact ⟨less.not_gt, fun notLess => absurd less notLess⟩
  · exact ⟨same.not_gt, fun _ => earlier⟩

theorem Leads.place_le {first second : Metric D × Nat} (leads : Leads first second)
    (numberFirst : IsNumber first.1.duration) (numberSecond : IsNumber second.1.duration) :
    place second.1.duration ≤ place first.1.duration := by
  have notBelow := leads.1
  rwa [← Bool.not_eq_true, below_iff numberFirst numberSecond, not_lt] at notBelow

/-- The sort is stable, so what is in the order of places before keeps it among equals. -/
theorem byDuration_leads {members : List (Metric D × Nat)}
    (numbers : ∀ member ∈ members, IsNumber member.1.duration)
    (apart : members.Pairwise fun a b => a.2 < b.2) :
    (byDuration (fun member => member.1.duration) members).Pairwise Leads := by
  refine (byDuration_pairwise numbers apart).imp_of_mem ?_
  intro first second found later lies
  have perm := byDuration_perm (fun member : Metric D × Nat => member.1.duration) members
  exact leads_of_place (numbers first (perm.mem_iff.mp found)) (numbers second (perm.mem_iff.mp later)) lies

end Ranking

/-- A group of either strategy lists its costliest members, if milliseconds are in the order of durations. -/
theorem RankedGroup.listsTop_of_shows [OrderedDuration D] {strategy : Strategy} {grand : D} {limit : Int}
    {metrics : List (Metric D)} {source : String × List (Metric D)} {group : RankedGroup D}
    (millis : ∀ x y : D, IsNumber x → IsNumber y → place x ≤ place y →
      Duration.below (Duration.toMillis y) (Duration.toMillis x) = false)
    (members : source.2 = metrics.filter (Ranking.belongs strategy source.1)) (nonneg : 0 ≤ limit)
    (shows : Ranking.Shows grand limit source group)
    (numbers : ∀ metric ∈ metrics, Ranking.belongs strategy group.key metric = true →
      IsNumber metric.duration) :
    ∃ arranged, group.ListsTop limit.toNat (Ranking.placed strategy group.key metrics) arranged := by
  have own : source.2 = metrics.filter (Ranking.belongs strategy group.key) := by rw [members, shows.key]
  have items := shows.items
  rw [own, Ranking.items_placed strategy group.key nonneg] at items
  have count : group.count = (Ranking.placed strategy group.key metrics).length := by
    rw [shows.count, own, ← Ranking.placed_members, List.length_map]
  have apart := Ranking.placed_pairwise strategy group.key metrics
  have number : ∀ member ∈ Ranking.placed strategy group.key metrics, IsNumber member.1.duration := by
    intro member inside
    have kept : member.1 ∈ metrics.filter (Ranking.belongs strategy group.key) :=
      Ranking.placed_members strategy group.key metrics ▸ List.mem_map_of_mem inside
    rw [List.mem_filter] at kept
    exact numbers member.1 kept.1 kept.2
  have perm := Ranking.byDuration_perm (fun member : Metric D × Nat => member.1.duration)
    (Ranking.placed strategy group.key metrics)
  have ordered := Ranking.byDuration_leads number apart
  generalize Ranking.byDuration (fun member : Metric D × Nat => member.1.duration)
    (Ranking.placed strategy group.key metrics) = arranged at items perm ordered
  refine ⟨arranged, ?_⟩
  exact {
    complete := perm
    ordered := ordered
    distinct := by
      have places : ((Ranking.placed strategy group.key metrics).map (·.2)).Nodup :=
        List.pairwise_map.mpr (apart.imp Nat.ne_of_lt)
      exact (perm.map _).nodup_iff.mpr places
    count := count
    length := by
      rw [items, count, ← perm.length_eq, List.length_map, List.length_take]
    listed := by
      rw [items, List.forall₂_map_left_iff]
      exact List.forall₂_same.mpr fun member _ => Ranking.describes_item member.1
    falling := by
      rw [items, List.pairwise_map]
      refine (ordered.sublist (List.take_sublist _ _)).imp_of_mem ?_
      intro upper lower found later leads
      have numberUpper := number upper (perm.mem_iff.mp (List.mem_of_mem_take found))
      have numberLower := number lower (perm.mem_iff.mp (List.mem_of_mem_take later))
      exact millis _ _ numberLower numberUpper (leads.place_le numberUpper numberLower)
    omitted := by
      rw [← List.take_append_drop limit.toNat arranged, List.pairwise_append] at ordered
      exact ordered.2.2 }

/-- A group of a report lists the costliest of its metrics, if none of their durations is undefined. Equally
costly ones are in the order of the metrics, which is the catalog's, and none is listed twice. -/
theorem Report.lists_costliest {strategy : Strategy} {limits : Limits} {counts : Counts}
    {warnings : List String} {metrics : List (Metric Float)} {report : Report Float}
    (run : ofMetrics strategy limits counts warnings metrics = .ok report) (limit : 0 ≤ limits.items)
    {group : RankedGroup Float} (shown : group ∈ report.groups)
    (numbers : ∀ metric ∈ metrics, Ranking.belongs strategy group.key metric = true →
      metric.duration.isNaN = false) :
    ∃ arranged, group.ListsTop limits.items.toNat (Ranking.placed strategy group.key metrics) arranged := by
  obtain ⟨ranked, _, _⟩ := ofMetrics_ok run
  obtain ⟨shows, _⟩ := Ranking.ranked_ok ranked
  obtain ⟨source, found, showsGroup⟩ := related_of_mem shows shown
  refine RankedGroup.listsTop_of_shows ?_ (Ranking.members_of_mem_groups found) limit showsGroup numbers
  intro x y numberX numberY le
  exact decide_eq_false (Duration.toMillis_mono numberX numberY le)

/-- Two checks that took as long, behind a cheaper one. -/
def Ranking.tied : List (Metric Float) :=
  [.sample "/c.ts" 1.0, .sample "/a.ts" 2.0, .sample "/b.ts" 2.0]

theorem Ranking.items_tied : items 1 tied = [item (.sample "/a.ts" 2.0)] := by
  have lower : Duration.below (Metric.sample "/c.ts" 1.0).duration
      (Metric.sample "/a.ts" 2.0).duration = true := by decide +kernel
  have same : Duration.below (Metric.sample "/a.ts" 2.0).duration
      (Metric.sample "/b.ts" 2.0).duration = false := by decide +kernel
  simp [items, byDuration, tied, upTo, List.mergeSort, List.MergeSort.Internal.splitInTwo, List.merge,
    lower, same]

theorem Report.lists_first_of_tied :
    ∃ report : Report Float, ofMetrics .symbols ⟨50, 1⟩ ⟨3, 3, 3⟩ [] Ranking.tied = .ok report ∧
      ∃ group ∈ report.groups, group.key = "source" ∧ group.items.map (·.path) = ["/a.ts"] ∧
        ∃ arranged, group.ListsTop 1 (Ranking.placed .symbols group.key Ranking.tied) arranged := by
  have share : Duration.share (Ranking.total Ranking.tied) (Ranking.total Ranking.tied) = .ok 100 := by
    decide +kernel
  have noShare : Duration.share (Ranking.total []) (Ranking.total Ranking.tied) = .ok 0 := by
    decide +kernel
  have groups : Ranking.groups .symbols 50 Ranking.tied =
      [("source", Ranking.tied), ("dependencies", [])] := rfl
  have run : ∃ report : Report Float, ofMetrics .symbols ⟨50, 1⟩ ⟨3, 3, 3⟩ [] Ranking.tied = .ok report ∧
      ∃ group ∈ report.groups, group.key = "source" ∧ group.items.map (·.path) = ["/a.ts"] := by
    unfold ofMetrics
    rw [groups]
    simp only [Ranking.ranked, share, noShare, Ranking.items_tied]
    exact ⟨_, rfl, _, List.mem_cons_self, rfl, rfl⟩
  have numbers : ∀ metric ∈ Ranking.tied, metric.duration.isNaN = false := by decide +kernel
  obtain ⟨report, run, group, shown, key, top⟩ := run
  refine ⟨report, run, group, shown, key, top, ?_⟩
  exact Report.lists_costliest run (by decide) shown fun metric inside _ => numbers metric inside

end CheckCost
