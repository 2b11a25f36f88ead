import Lift6502.Dialect.Target
import Lift6502.Proofs.Json.Reading
import Lift6502.Proofs.Routine.Programs
import Lift6502.Proofs.Tree.Decoding

/-!
# The JSON form of programs as text

All numbers in the JSON form of a program are addresses, which any reader of JSON holds. How deep
the form is nested follows from the height of the tree, and the trees that are built are shallow.
What is written for such a program is therefore read back, and decoded to the program that it was
written for.
-/

namespace Lift6502

/-! ### Numbers -/

theorem Address.inRange_toJson (address : Address) : Json.InRange address.toJson := by
  have hbits : address.toNat < Nat.pow 2 53 := Nat.lt_trans address.toNat_lt (by decide)
  exact .number (Json.inDoubleRange_of_lt hbits)

theorem Variable.inRange_toJson (place : Variable) : Json.InRange place.toJson := by
  have hkind : Json.InRange (kindToJson place.kind) := by
    cases place.kind with
    | none => exact .null
    | some kind => exact .string kind.text
  rw [toJson_eq]
  refine .object ?_
  simp only [List.forall_mem_cons]
  exact ⟨.string _, place.address.inRange_toJson, hkind, .bool _, .bool _, List.forall_mem_nil _⟩

namespace Node

/-- What holds of texts, of lists of texts, of addresses and of the children holds of all that is
written for a node. -/
theorem forall_mem_written_fields (P : Json → Prop) (node : Node) (htext : ∀ text, P (.string text))
    (htexts : ∀ texts : List String, P (.array (texts.map .string)))
    (haddress : ∀ address : Address, P address.toJson)
    (hchildren : P (.array (node.children.map toJson))) :
    ∀ member ∈ Json.written node.fields, P member.2 := by
  have hfilled {p : Prop} [Decidable p] {filled : Json} (hfilled : P filled) (value : Json)
      (hvalue : (if p then none else some filled) = some value) : P value := by
    obtain ⟨-, hvalue⟩ := Option.ite_none_left_eq_some.mp hvalue
    exact Option.some.inj hvalue ▸ hfilled
  refine Json.forall_mem_written ?_
  simp only [fields, List.forall_mem_cons]
  refine ⟨fun value hvalue => ?_, hfilled hchildren, hfilled (htext node.value),
    fun value hvalue => ?_, hfilled (htexts node.params), fun value hvalue => ?_,
    List.forall_mem_nil _⟩
  · exact Option.some.inj hvalue ▸ htext node.kind.text
  · obtain ⟨label, -, rfl⟩ := Option.map_eq_some_iff.mp hvalue
    exact htext label
  · obtain ⟨address, -, rfl⟩ := Option.map_eq_some_iff.mp hvalue
    exact haddress address

theorem inRange_toJson (node : Node) : Json.InRange node.toJson := by
  induction node using Node.induction with
  | step node ih =>
    rw [toJson_eq_written]
    refine .object (node.forall_mem_written_fields Json.InRange .string
      (fun texts => ?_) Address.inRange_toJson ?_)
    · exact .array (List.forall_mem_map.mpr fun text _ => .string text)
    · exact .array (List.forall_mem_map.mpr ih)

end Node

namespace Program

theorem inRange_mapJson {β : Type} {encode : β → Json} (h : ∀ value, Json.InRange (encode value))
    (map : AddressMap β) : Json.InRange (mapJson encode map) :=
  .object (List.forall_mem_map.mpr fun entry _ => h entry.2)

theorem inRange_toJson (program : Program) : Json.InRange program.toJson := by
  refine .object ?_
  simp only [List.forall_mem_cons]
  exact ⟨program.root.inRange_toJson, inRange_mapJson .string _, inRange_mapJson .string _,
    inRange_mapJson Variable.inRange_toJson _, List.forall_mem_nil _⟩

end Program

/-! ### Nesting -/

theorem Variable.depth_toJson_le (place : Variable) : place.toJson.depth ≤ 1 := by
  have hkind : (kindToJson place.kind).isScalar = true := by
    cases place.kind <;> rfl
  rw [toJson_eq]
  refine Json.depth_object_le ?_
  simp only [List.forall_mem_cons]
  exact ⟨Json.depth_le_of_isScalar rfl 0, Json.depth_le_of_isScalar rfl 0,
    Json.depth_le_of_isScalar hkind 0, Json.depth_le_of_isScalar rfl 0,
    Json.depth_le_of_isScalar rfl 0, List.forall_mem_nil _⟩

namespace Node

variable {node : Node}

/-- The form of a node is nested by two more than those of its children, which stand in an array. -/
theorem depth_toJson_le {bound : Nat} (h : ∀ child ∈ node.children, child.toJson.depth ≤ bound) :
    node.toJson.depth ≤ bound + 2 := by
  rw [toJson_eq_written]
  refine Json.depth_object_le (node.forall_mem_written_fields (·.depth ≤ bound + 1) (fun text => ?_)
    (fun texts => ?_)
    (fun address => ?_) ?_)
  · exact Json.depth_le_of_isScalar rfl _
  · exact Json.depth_array_le (List.forall_mem_map.mpr fun text _ =>
      Json.depth_le_of_isScalar rfl _)
  · exact Json.depth_le_of_isScalar rfl _
  · exact Json.depth_array_le (List.forall_mem_map.mpr h)

theorem IsLine.depth_le (h : node.IsLine) : node.toJson.depth ≤ 2 :=
  depth_toJson_le (by rw [h.leaf]; exact List.forall_mem_nil _)

theorem IsCase.depth_le (h : node.IsCase) : node.toJson.depth ≤ 4 := by
  obtain ⟨action, hchildren, hleaf, -⟩ := h.action
  refine depth_toJson_le ?_
  rw [hchildren]
  refine List.forall_mem_singleton.mpr (depth_toJson_le ?_)
  rw [hleaf]
  exact List.forall_mem_nil _

theorem IsItem.depth_le (h : node.IsItem) : node.toJson.depth ≤ 6 := by
  have hlines (hchildren : ∀ child ∈ node.children, child.IsLine) : node.toJson.depth ≤ 4 :=
    depth_toJson_le fun child hchild => (hchildren child hchild).depth_le
  cases h with
  | line hline => exact Nat.le_trans hline.depth_le (by decide)
  | group _ hchildren => exact Nat.le_trans (hlines hchildren) (by decide)
  | chain _ _ hchildren => exact Nat.le_trans (hlines hchildren) (by decide)
  | switch _ _ hchildren => exact depth_toJson_le fun child hchild =>
    (hchildren child hchild).depth_le

theorem IsRoutine.depth_le (h : node.IsRoutine) : node.toJson.depth ≤ 8 :=
  depth_toJson_le fun child hchild => (h.items child hchild).depth_le

theorem IsTree.depth_le (h : node.IsTree) : node.toJson.depth ≤ 10 :=
  depth_toJson_le fun child hchild => (h.routines child hchild).depth_le

end Node

namespace Program

theorem depth_mapJson_le {β : Type} {encode : β → Json} {bound : Nat}
    (h : ∀ value, (encode value).depth ≤ bound) (map : AddressMap β) :
    (mapJson encode map).depth ≤ bound + 1 :=
  Json.depth_object_le (List.forall_mem_map.mpr fun entry _ => h entry.2)

theorem depth_toJson_le {program : Program} {bound : Nat}
    (h : program.root.toJson.depth ≤ bound + 2) : program.toJson.depth ≤ bound + 3 := by
  have htexts (map : AddressMap String) : (mapJson .string map).depth ≤ 1 :=
    depth_mapJson_le (fun text => Json.depth_le_of_isScalar rfl 0) map
  have hvariables := depth_mapJson_le Variable.depth_toJson_le program.variableMap
  refine Json.depth_object_le ?_
  simp only [List.forall_mem_cons]
  refine ⟨h, Nat.le_trans (htexts _) (by omega), Nat.le_trans (htexts _) (by omega),
    Nat.le_trans hvariables (by omega), List.forall_mem_nil _⟩

/-- What is written for a program is read back and decoded, exactly if it is not nested too deep. -/
theorem read?_print_bind (program : Program) :
    (Json.read? (program.toJson.print ++ "\n").toList).bind ofJson? =
      if program.toJson.depth ≤ Json.State.maxDepth then some program else none := by
  have htrail : ∀ c ∈ "\n".toList, Json.isSpace c = true := List.forall_mem_singleton.mpr rfl
  rw [String.toList_append, Json.read?_print program.inRange_toJson htrail]
  split
  · exact program.ofJson?_toJson
  · rfl

theorem render_json {program : Program} (h : program.root.kind = .program) :
    program.render .json = .ok { text := program.toJson.print ++ "\n" } := by
  rw [render, if_neg (not_not_intro h)]
  rfl

theorem rendered_read_back {program : Program} (h : program.root.IsTree) :
    ∃ rendering, program.render .json = .ok rendering ∧
      (Json.read? rendering.text.toList).bind ofJson? = some program := by
  refine ⟨_, render_json h.kind, ?_⟩
  rw [read?_print_bind, if_pos]
  exact Nat.le_trans (depth_toJson_le h.depth_le) (by decide)

/-- The JSON form of programs loses nothing. For a node exactly its filled fields are written, and
every tree is decoded from that, with the fields that are left out taken as empty or absent; so is
every program, with its three maps. The text that is written for the program of a listing is read
back and decoded to that program. -/
theorem json_form_lossless :
    (∀ node : Node, node.toJson.names = node.filledFields ∧ Node.ofJson? node.toJson = some node) ∧
    (∀ program : Program, program.toJson.names = ["program", "subroutines", "kernal_calls",
      "variables"] ∧
      ofJson? program.toJson = some program) ∧
    ∀ symbols blocks, ∃ rendering, (build symbols blocks).render .json = .ok rendering ∧
      (Json.read? rendering.text.toList).bind ofJson? = some (build symbols blocks) := by
  refine ⟨fun node => ?_, fun program => ?_, fun symbols blocks => ?_⟩
  · exact ⟨node.names_toJson, node.ofJson?_toJson⟩
  · exact ⟨program.names_toJson, program.ofJson?_toJson⟩
  · exact rendered_read_back (isTree_build symbols blocks)

end Program

end Lift6502
