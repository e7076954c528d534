import CheckCost.Proofs.SettingsLoading
import CheckCost.Proofs.Yaml.FieldText
import CheckCost.Proofs.Yaml.MappingValue

/-!
How far a variable in a settings file reaches. Its value is put into the text before the text is read, so it may set
any other setting as well; it reaches its own setting only as long as the text of that setting stays one field.
-/
namespace CheckCost

namespace Environment

/-- The environments differ in this variable only. -/
def DifferOnlyIn (changed : String) (env env' : Environment) : Prop :=
  ∀ other, other ≠ changed → env.lookup other = env'.lookup other

/-- There is a reference to this variable. -/
def Mentions (changed : String) (pieces : List Piece) : Prop :=
  ∃ name written, .reference name written ∈ pieces ∧ String.ofList name = changed

variable {changed : String} {env env' : Environment} {pieces : List Piece}

theorem flatMap_value_eq (differ : DifferOnlyIn changed env env') (apart : ¬Mentions changed pieces) :
    pieces.flatMap env'.value = pieces.flatMap env.value := by
  refine List.flatMap_congr fun piece member => ?_
  cases piece with
  | literal => rfl
  | reference name written =>
    have same := differ (String.ofList name) fun named => apart ⟨name, written, member, named⟩
    simp only [value, same]

theorem differOnlyIn_single (changed value value' : String) :
    DifferOnlyIn changed [(changed, value)] [(changed, value')] := by
  intro other ne
  rw [List.lookup_cons, List.lookup_cons, beq_false_of_ne ne]

theorem toList_expand (text : String) : (expand env text).toList = (Environment.pieces text).flatMap env.value :=
  String.toList_ofList

end Environment

namespace Settings

open Environment (Piece DifferOnlyIn Mentions)
open Yaml (Node Token)
open Yaml.Document (StopsAt AddsField Continues)

variable {env env' : Environment} {path : Path} {content : FileContent} {text changed : String}
  {before field after : List Piece} {margin : Nat} {columns : List Nat} {fields : List (Node × Node)} {key : Node}
  {name : Yaml.Value} {found found' : List (Yaml.Value × Yaml.Value)}

/-- What is returned is the mapping that a document stands for, or nothing if it stands for something else. -/
theorem node_of_mappingOf (run : mappingOf env path text = .ok found) :
    ∃ result, Yaml.Document.node? (Token.ofChars (env.expand text).toList) = .ok result ∧
      ∀ node, result = some node → ∃ value, node.value = .ok value ∧
        (value = .map found ∨ found = [] ∧ ∀ entries, value ≠ .map entries) := by
  obtain ⟨value, read, run⟩ := Outcome.bind_ok_iff.mp run
  obtain ⟨result, document, read⟩ := Outcome.bind_ok_iff.mp (Outcome.mapError_ok_iff.mp read)
  refine ⟨result, document, ?_⟩
  rintro node rfl
  refine ⟨value, read, ?_⟩
  split at run
  · cases run
    exact .inl rfl
  · next other =>
    split at run
    · cases run
      exact .inr ⟨rfl, other⟩
    · cases run

/-- Two mappings that differ in the value of one field are returned with the same values under all other keys. -/
theorem sameBut_of_values {tag : Yaml.Tag} {value value' : Node} {rest : List (Node × Node)} {made made' : Yaml.Value}
    (keyed : key.asKey.value = .ok name) (read : (Node.map tag (fields ++ (key, value) :: rest)).value = .ok made)
    (read' : (Node.map tag (fields ++ (key, value') :: rest)).value = .ok made')
    (returns : made = .map found ∨ found = [] ∧ ∀ entries, made ≠ .map entries)
    (returns' : made' = .map found' ∨ found' = [] ∧ ∀ entries, made' ≠ .map entries) :
    Entries.SameBut name found found' := by
  by_cases usual : tag = .map
  · subst usual
    obtain ⟨list, -, mapped⟩ := Node.value_map read
    obtain ⟨list', -, mapped'⟩ := Node.value_map read'
    obtain rfl := returns.resolve_right fun other => other.2 _ mapped
    obtain rfl := returns'.resolve_right fun other => other.2 _ mapped'
    exact Node.sameBut_of_field keyed read read'
  · have never := Node.meaning_ne_map usual
    rw [Node.eq_meaning_of_value read] at returns
    rw [Node.eq_meaning_of_value read'] at returns'
    obtain ⟨rfl, -⟩ := returns.resolve_left (never _ _)
    obtain ⟨rfl, -⟩ := returns'.resolve_left (never _ _)
    exact .refl name []

end Settings

end CheckCost
