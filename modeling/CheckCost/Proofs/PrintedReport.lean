import CheckCost.Proofs.FiniteReport
import CheckCost.Proofs.Json.Printing

/-!
Printed reports. A report whose doubles are finite is read back from its text, field by field and in the order in
which it was written; so no two of them have one text.
-/
namespace CheckCost

/-! A report is known by its document. -/

theorem RankedItem.document_injective : Function.Injective RankedItem.document := by
  intro item other same
  obtain ⟨duration, name, path, line, column⟩ := item
  cases other
  simp only [document, Json.obj.injEq, List.cons.injEq, Prod.mk.injEq, Json.float.injEq, Json.str.injEq,
    Json.int.injEq, true_and, and_true] at same
  obtain ⟨rfl, rfl, rfl, rfl, rfl⟩ := same
  rfl

theorem RankedGroup.document_injective : Function.Injective RankedGroup.document := by
  intro group other same
  obtain ⟨rank, key, total, percentage, count, items⟩ := group
  cases other
  simp only [document, Json.obj.injEq, List.cons.injEq, Prod.mk.injEq, Json.float.injEq, Json.str.injEq,
    Json.int.injEq, Json.arr.injEq, Int.natCast_inj, RankedItem.document_injective.list_map.eq_iff, true_and,
    and_true] at same
  obtain ⟨rfl, rfl, rfl, rfl, rfl, rfl⟩ := same
  rfl

theorem Strategy.name_injective : Function.Injective Strategy.name := by
  intro strategy other same
  have known := ofName?_name strategy
  rw [same, ofName?_name] at known
  exact (Option.some.inj known).symm

namespace Report

theorem document_injective : Function.Injective Report.document := by
  intro report other same
  obtain ⟨strategy, traceCount, catalogCount, metricCount, filteredCount, grandTotal, groups, warnings⟩ := report
  cases other
  have texts : Function.Injective Json.str := fun _ _ => Json.str.inj
  simp only [document, Json.obj.injEq, List.cons.injEq, Prod.mk.injEq, Json.float.injEq, Json.str.injEq,
    Json.int.injEq, Json.arr.injEq, Int.natCast_inj, RankedGroup.document_injective.list_map.eq_iff,
    texts.list_map.eq_iff, Strategy.name_injective.eq_iff, true_and, and_true] at same
  obtain ⟨rfl, rfl, rfl, rfl, rfl, rfl, rfl, rfl⟩ := same
  rfl

end Report

namespace Json

theorem itemsReadable_iff (items : List Json) : ItemsReadable items ↔ ∀ item ∈ items, IsReadable item := by
  induction items with
  | nil => simp [ItemsReadable]
  | cons item rest ih => rw [ItemsReadable, ih, List.forall_mem_cons]

end Json

/-! The integers of a report. -/

/-- The integer has no more digits than are converted. -/
def IsShort (n : ℤ) : Prop := (Number.natDigits n.natAbs).length ≤ NumberFault.digitLimit

def RankedItem.integers (item : RankedItem Float) : List ℤ := [item.line, item.column]

def RankedGroup.integers (group : RankedGroup Float) : List ℤ :=
  [(group.rank : ℤ), group.percentage, group.count] ++ group.items.flatMap RankedItem.integers

def Report.integers (report : Report Float) : List ℤ :=
  [(report.traceCount : ℤ), report.catalogCount, report.metricCount, report.filteredCount] ++
    report.groups.flatMap RankedGroup.integers

theorem RankedItem.isReadable_document (item : RankedItem Float) :
    item.document.IsReadable ↔ ∀ n ∈ item.integers, IsShort n := by
  simp [document, integers, Json.IsReadable, Json.FieldsReadable, Entries.keys, IsShort]

theorem RankedGroup.isReadable_document (group : RankedGroup Float) :
    group.document.IsReadable ↔ ∀ n ∈ group.integers, IsShort n := by
  have items : (∀ item ∈ group.items.map RankedItem.document, item.IsReadable) ↔
      ∀ n ∈ group.items.flatMap RankedItem.integers, IsShort n := by
    simp only [List.forall_mem_map, RankedItem.isReadable_document, List.forall_mem_flatMap]
  unfold document integers
  rw [List.forall_mem_append, ← items]
  simp [Json.IsReadable, Json.FieldsReadable, Entries.keys, IsShort, Json.itemsReadable_iff, and_assoc]

theorem Report.isReadable_document (report : Report Float) :
    report.document.IsReadable ↔ ∀ n ∈ report.integers, IsShort n := by
  have groups : (∀ group ∈ report.groups.map RankedGroup.document, group.IsReadable) ↔
      ∀ n ∈ report.groups.flatMap RankedGroup.integers, IsShort n := by
    simp only [List.forall_mem_map, RankedGroup.isReadable_document, List.forall_mem_flatMap]
  unfold document integers
  rw [List.forall_mem_append, ← groups]
  simp [Json.IsReadable, Json.FieldsReadable, Entries.keys, IsShort, Json.itemsReadable_iff, and_assoc]

namespace Report

theorem keeps_printed {report : Report Float} (finite : report.IsFinite)
    (short : ∀ n ∈ report.integers, IsShort n) : Json.Keeps report.printed report.document :=
  Json.keeps_print ((isFinite_document report).mpr finite) ((isReadable_document report).mpr short)

/-- The printed report is ASCII text of the standard that any parser reads as the report's document, and different
reports have different texts. -/
theorem printed_loses_nothing {report : Report Float} (finite : report.IsFinite)
    (short : ∀ n ∈ report.integers, IsShort n) :
    Json.Keeps report.printed report.document ∧
      ∀ other : Report Float, other.IsFinite → (∀ n ∈ other.integers, IsShort n) →
        other.printed = report.printed → other = report := by
  have keeps := keeps_printed finite short
  refine ⟨keeps, ?_⟩
  intro other finiteOther shortOther same
  have keepsOther := keeps_printed finiteOther shortOther
  rw [same] at keepsOther
  exact document_injective (Json.eq_of_keeps keepsOther keeps)

/-- Texts with escapes of every kind, a double of the least size, and lists without anything in them. -/
def crowded : Report Float where
  strategy := .symbols
  traceCount := 0
  catalogCount := 10
  metricCount := 2
  filteredCount := 1
  grandTotal := 5.0e-324
  groups := [
    { rank := 1, key := "a\"b\\c/d", total := 0.1, percentage := -1, count := 1
      items := [{ duration := -0.0, name := "\n\t\u0001\u007f", path := "\u00e9𝄞", line := -7, column := 0 }] },
    { rank := 2, key := "", total := 1.0e22, percentage := 100, count := 0, items := [] }]
  warnings := ["\ufeff"]

theorem printed_loses_nothing_of_crowded :
    crowded.IsFinite ∧ (∀ n ∈ crowded.integers, IsShort n) ∧ Json.Keeps crowded.printed crowded.document := by
  have finite : crowded.IsFinite := ⟨by decide +kernel, by decide +kernel, by decide +kernel⟩
  have short : ∀ n ∈ crowded.integers, IsShort n := by
    unfold IsShort
    decide +kernel
  exact ⟨finite, short, (printed_loses_nothing finite short).1⟩

end Report

end CheckCost
