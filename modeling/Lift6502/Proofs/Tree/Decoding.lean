import Lift6502.Proofs.Machine.Maps
import Lift6502.Proofs.Text.Decimals
import Lift6502.Proofs.Tree.Walk
import Lift6502.Tree.Encoding

/-!
# Programs from their JSON form

The fields of a node are looked up by their names, and a field that is left out is empty or absent.
Every tree is decoded from what it is encoded as, because a field is left out only if it is empty or
absent; and every program is, with its maps, because each name in a map spells the address that it
stands for.
-/

namespace Lift6502

/-! ### Fields -/

namespace Json

def text? : Json → Option String
  | string text => some text
  | _ => none

def flag? : Json → Option Bool
  | bool value => some value
  | _ => none

def elements? : Json → Option (List Json)
  | array elements => some elements
  | _ => none

def members? : Json → Option (List (String × Json))
  | object members => some members
  | _ => none

def texts? (json : Json) : Option (List String) := json.elements?.bind (·.mapM text?)

/-- The names of the members of an object, in the order in which they are written. -/
def names (json : Json) : List String := (json.members?.getD []).map (·.1)

section

variable {α : Type}

/-- A field that has to be there. -/
def field? (json : Json) (name : String) (decode : Json → Option α) : Option α :=
  (json.member? name).bind decode

/-- A field that may be left out, and what it is then. -/
def fieldOr (json : Json) (name : String) (omitted : α) (decode : Json → Option α) : Option α :=
  match json.member? name with
  | none => some omitted
  | some value => decode value

end

theorem sizeOf_lt_of_member? {json value : Json} {name : String}
    (h : json.member? name = some value) : sizeOf value < sizeOf json := by
  cases json with
  | object members =>
    obtain ⟨member, hlast, rfl⟩ := Option.map_eq_some_iff.mp h
    have hmember : member ∈ members := (List.mem_filter.mp (List.mem_of_getLast? hlast)).1
    have hlist := List.sizeOf_lt_of_mem hmember
    obtain ⟨name, value⟩ := member
    simp only [Prod.mk.sizeOf_spec] at hlist
    simp only [object.sizeOf_spec]
    omega
  | _ => cases h

theorem sizeOf_lt_of_mem_fieldOr {json element : Json} {name : String} {elements : List Json}
    (h : json.fieldOr name [] elements? = some elements) (helement : element ∈ elements) :
    sizeOf element < sizeOf json := by
  unfold fieldOr at h
  split at h
  · cases h
    cases helement
  · rename_i value hvalue
    have hsmaller := sizeOf_lt_of_member? hvalue
    cases value with
    | array written =>
      cases h
      have hlist := List.sizeOf_lt_of_mem helement
      simp only [array.sizeOf_spec] at hsmaller
      omega
    | _ => cases h

end Json

/-! ### Decoding -/

def Address.ofJson? : Json → Option Address
  | .number (.ofNat number) 0 => if number < 65536 then some (UInt16.ofNat number) else none
  | _ => none

/-- The kind of symbol with a name. -/
def SymbolKind.read? (text : String) : Option SymbolKind :=
  [subroutine, kernalCall, hardwareRegister, zeroPage, label].find? (·.text == text)

/-- The node that a JSON value spells. Fields that are left out are empty or absent. -/
def Node.ofJson? (json : Json) : Option Node :=
  match _hchildren : json.fieldOr "children" [] Json.elements? with
  | none => none
  | some elements => do
    let kind ← json.field? "kind" fun kind => kind.text?.bind NodeKind.read?
    let children ← elements.attach.mapM fun element => ofJson? element.1
    let value ← json.fieldOr "value" "" Json.text?
    let label ← json.fieldOr "label" none fun label => label.text?.map some
    let params ← json.fieldOr "params" [] Json.texts?
    let address ← json.fieldOr "address" none fun address => (Address.ofJson? address).map some
    return { kind, children, value, label, params, address }
termination_by json
decreasing_by exact Json.sizeOf_lt_of_mem_fieldOr _hchildren element.2

namespace Variable

/-- The kind of a variable, which is null if nothing is known about it. -/
def kindOfJson? : Json → Option (Option SymbolKind)
  | .null => some none
  | kind => (kind.text?.bind SymbolKind.read?).map some

def ofJson? (json : Json) : Option Variable := do
  let name ← json.field? "name" Json.text?
  let address ← json.field? "address" Address.ofJson?
  let kind ← json.field? "kind" kindOfJson?
  let indexed ← json.field? "indexed" Json.flag?
  let pointer ← json.field? "pointer" Json.flag?
  return { name, address, kind, indexed, pointer }

end Variable

namespace Program

/-- One member of a map, whose name spells an address in decimal. -/
def mapMember? {β : Type} (decode : Json → Option β) (member : String × Json) :
    Option (Address × β) := do
  let address ← Text.readNat? 65536 member.1
  let value ← decode member.2
  return (UInt16.ofNat address, value)

def mapOfJson? {β : Type} (decode : Json → Option β) (json : Json) : Option (AddressMap β) := do
  let members ← json.members?
  let entries ← members.mapM (mapMember? decode)
  return Std.ExtTreeMap.ofList entries

/-- The program that a JSON value spells. -/
def ofJson? (json : Json) : Option Program := do
  let root ← json.field? "program" Node.ofJson?
  let subroutines ← json.field? "subroutines" (mapOfJson? Json.text?)
  let romCalls ← json.field? "kernal_calls" (mapOfJson? Json.text?)
  let variableMap ← json.field? "variables" (mapOfJson? Variable.ofJson?)
  return { root, subroutines, romCalls, variableMap }

end Program

/-! ### Members that are written -/

namespace Json

/-- The members that are written for fields of which some may be left out. -/
def written (fields : List (String × Option Json)) : List (String × Json) :=
  fields.filterMap fun field => field.2.map (field.1, ·)

theorem written_append (fields others : List (String × Option Json)) :
    written (fields ++ others) = written fields ++ written others :=
  List.filterMap_append

theorem forall_mem_written {P : Json → Prop} {fields : List (String × Option Json)}
    (h : ∀ field ∈ fields, ∀ value, field.2 = some value → P value) :
    ∀ member ∈ written fields, P member.2 := by
  intro member hmember
  obtain ⟨field, hfield, hwritten⟩ := List.mem_filterMap.mp hmember
  obtain ⟨value, hvalue, rfl⟩ := Option.map_eq_some_iff.mp hwritten
  exact h field hfield value hvalue

theorem map_fst_written (fields : List (String × Option Json)) :
    (written fields).map (·.1) = (fields.filter (·.2.isSome)).map (·.1) := by
  induction fields with
  | nil => rfl
  | cons field fields ih =>
    obtain ⟨name, value⟩ := field
    cases value with
    | none => exact ih
    | some value => exact congrArg (name :: ·) ih

theorem member?_object_cons (name : String) (member : String × Json)
    (members : List (String × Json)) :
    member? name (.object (member :: members)) =
      (member? name (.object members)).or (if member.1 = name then some member.2 else none) := by
  by_cases hname : member.1 = name
  · rw [if_pos hname, member?, member?, List.filter_cons_of_pos (by simpa using hname),
      List.getLast?_cons]
    cases (members.filter (·.1 == name)).getLast? <;> rfl
  · rw [if_neg hname, Option.or_none, member?, member?,
      List.filter_cons_of_neg (by simpa using hname)]

theorem member?_written_cons (name own : String) (value : Option Json)
    (fields : List (String × Option Json)) :
    member? name (.object (written ((own, value) :: fields))) =
      (member? name (.object (written fields))).or (if own = name then value else none) := by
  cases value with
  | none =>
    rw [ite_self, Option.or_none]
    rfl
  | some value => exact member?_object_cons name (own, value) (written fields)

/-- Fields with different names are found under their names. -/
theorem member?_written {fields : List (String × Option Json)} (h : (fields.map (·.1)).Nodup)
    (name : String) : member? name (.object (written fields)) = (fields.lookup name).join := by
  induction fields with
  | nil => rfl
  | cons field fields ih =>
    obtain ⟨own, value⟩ := field
    obtain ⟨hnew, hnodup⟩ := List.nodup_cons.mp h
    rw [member?_written_cons, ih hnodup, List.lookup_cons]
    by_cases hname : own = name
    · subst hname
      have hnone : fields.lookup own = none := by
        rw [List.lookup_eq_none_iff]
        intro other hother
        rw [bne_iff_ne]
        rintro rfl
        exact hnew (List.mem_map.mpr ⟨other, hother, rfl⟩)
      rw [hnone, if_pos rfl, beq_self_eq_true]
      rfl
    · rw [if_neg hname, Option.or_none, beq_eq_false_iff_ne.mpr (Ne.symm hname)]

/-! ### Values one by one -/

section

variable {α : Type} {json : Json} {name : String} {decode : Json → Option α}

/-- A field that is left out under a condition is decoded if the condition makes it what it is
then. -/
theorem fieldOr_of_ite {p : Prop} [Decidable p] {value omitted : α} {encoded : Json}
    (h : json.member? name = if p then none else some encoded) (hempty : p → value = omitted)
    (hdecode : decode encoded = some value) : json.fieldOr name omitted decode = some value := by
  rw [fieldOr, h]
  by_cases hp : p
  · rw [if_pos hp, hempty hp]
  · rw [if_neg hp]
    exact hdecode

theorem fieldOr_of_map {value : Option α} {encode : α → Json}
    (h : json.member? name = value.map encode)
    (hdecode : ∀ value, decode (encode value) = some value) :
    (json.fieldOr name none fun json => (decode json).map some) = some value := by
  rw [fieldOr, h]
  cases value with
  | none => rfl
  | some value => exact congrArg (Option.map some) (hdecode value)

end

end Json

/-- What is decoded one by one is decoded as a list. -/
theorem mapM_map_eq_some {α β : Type} {encode : α → β} {decode : β → Option α} {values : List α}
    (h : ∀ value ∈ values, decode (encode value) = some value) :
    (values.map encode).mapM decode = some values := by
  induction values with
  | nil => rfl
  | cons value values ih =>
    obtain ⟨hvalue, hvalues⟩ := List.forall_mem_cons.mp h
    rw [List.map_cons, List.mapM_cons, hvalue, ih hvalues]
    rfl

theorem Json.text?_string (text : String) : text? (.string text) = some text := rfl

theorem Json.texts?_map_string (texts : List String) :
    texts? (.array (texts.map .string)) = some texts :=
  mapM_map_eq_some fun text _ => text?_string text

theorem Address.ofJson?_toJson (address : Address) : ofJson? address.toJson = some address := by
  have hbound : address.toNat < 65536 := address.toNat_lt
  change (if address.toNat < 65536 then some (UInt16.ofNat address.toNat) else none) = some address
  rw [if_pos hbound, UInt16.ofNat_toNat]

theorem NodeKind.read?_text (kind : NodeKind) : read? kind.text = some kind := by
  cases kind <;> decide

theorem SymbolKind.read?_text (kind : SymbolKind) : read? kind.text = some kind := by
  cases kind <;> decide

/-! ### Trees -/

namespace Node

theorem toJsonAll_eq_map (nodes : List Node) : toJsonAll nodes = nodes.map toJson := by
  induction nodes with
  | nil => rw [toJsonAll, List.map_nil]
  | cons node nodes ih => rw [toJsonAll, ih, List.map_cons]

/-- The fields of a node in their order, with what is written for those that are not left out. -/
def fields (node : Node) : List (String × Option Json) :=
  [("kind", some (.string node.kind.text)),
   ("children", if node.children = [] then none else some (.array (node.children.map toJson))),
   ("value", if node.value = "" then none else some (.string node.value)),
   ("label", node.label.map .string),
   ("params", if node.params = [] then none else some (.array (node.params.map .string))),
   ("address", node.address.map Address.toJson)]

theorem arrayMember_eq_written (name : String) (elements : List Json) :
    arrayMember name elements
      = Json.written [(name, if elements = [] then none else some (.array elements))] := by
  cases elements <;> rfl

theorem textMember_eq_written (name text : String) :
    textMember name text
      = Json.written [(name, if text = "" then none else some (.string text))] := by
  rw [textMember]
  split <;> rfl

theorem optionalMember_eq_written (name : String) (value : Option Json) :
    optionalMember name value = Json.written [(name, value)] := by
  cases value <;> rfl

theorem toJson_eq_written (node : Node) : node.toJson = .object (Json.written node.fields) := by
  obtain ⟨kind, children, value, label, params, address⟩ := node
  have hkind : [("kind", Json.string kind.text)]
      = Json.written [("kind", some (.string kind.text))] := rfl
  rw [toJson, toJsonAll_eq_map, arrayMember_eq_written, textMember_eq_written,
    optionalMember_eq_written, arrayMember_eq_written, optionalMember_eq_written]
  simp only [List.map_eq_nil_iff, hkind, ← Json.written_append]
  rfl

theorem member?_toJson (node : Node) (name : String) :
    node.toJson.member? name = (node.fields.lookup name).join := by
  have hnames : node.fields.map (·.1) = ["kind", "children", "value", "label", "params",
      "address"] := rfl
  rw [toJson_eq_written]
  exact Json.member?_written (hnames ▸ by decide) name

/-- A value spells a node if its fields spell those of the node. -/
theorem ofJson?_eq_some {json : Json} {node : Node} (elements : List Json)
    (hkind : (json.field? "kind" fun kind => kind.text?.bind NodeKind.read?) = some node.kind)
    (helements : json.fieldOr "children" [] Json.elements? = some elements)
    (hchildren : elements.mapM ofJson? = some node.children)
    (hvalue : json.fieldOr "value" "" Json.text? = some node.value)
    (hlabel : (json.fieldOr "label" none fun label => label.text?.map some) = some node.label)
    (hparams : json.fieldOr "params" [] Json.texts? = some node.params)
    (haddress : (json.fieldOr "address" none fun address => (Address.ofJson? address).map some)
      = some node.address) :
    ofJson? json = some node := by
  obtain ⟨kind, children, value, label, params, address⟩ := node
  rw [ofJson?]
  split
  · rename_i hnone
    cases helements.symm.trans hnone
  · rename_i found hfound
    obtain rfl := Option.some.inj (helements.symm.trans hfound)
    have hattach : (elements.attach.mapM fun element => ofJson? element.1) = some children := by
      rw [List.mapM_subtype (g := ofJson?) fun _ _ => rfl, List.unattach_attach, hchildren]
    rw [hkind, hattach, hvalue, hlabel, hparams, haddress]
    rfl

/-- Every tree is decoded from its JSON form. -/
theorem ofJson?_toJson (node : Node) : ofJson? node.toJson = some node := by
  induction node using Node.induction with
  | step node ih =>
    have hmember := node.member?_toJson
    refine ofJson?_eq_some (node.children.map toJson) ?_ ?_ (mapM_map_eq_some ih) ?_ ?_ ?_ ?_
    · rw [Json.field?, hmember]
      exact NodeKind.read?_text node.kind
    · exact Json.fieldOr_of_ite (hmember "children") List.map_eq_nil_iff.mpr rfl
    · exact Json.fieldOr_of_ite (hmember "value") id rfl
    -- A label that is there is written even if it is empty, unlike a value.
    · exact Json.fieldOr_of_map (hmember "label") Json.text?_string
    · exact Json.fieldOr_of_ite (hmember "params") id (Json.texts?_map_string node.params)
    · exact Json.fieldOr_of_map (hmember "address") Address.ofJson?_toJson

/-- The names of the fields of a node that are neither empty nor absent, in order. Every node has a
kind. -/
def filledFields (node : Node) : List String :=
  ([("kind", true), ("children", !node.children.isEmpty), ("value", node.value != ""),
    ("label", node.label.isSome), ("params", !node.params.isEmpty),
    ("address", node.address.isSome)].filter (·.2)).map (·.1)

/-- Exactly the filled fields of a node are written. -/
theorem names_toJson (node : Node) : node.toJson.names = node.filledFields := by
  have hlist {α : Type} (list : List α) (value : Json) :
      (if list = [] then none else some value).isSome = !list.isEmpty := by
    cases list <;> rfl
  have htext (text : String) (value : Json) :
      (if text = "" then none else some value).isSome = (text != "") := by
    by_cases hempty : text = "" <;> simp [hempty]
  have hfilled : node.fields.map (fun field => (field.1, field.2.isSome)) =
      [("kind", true), ("children", !node.children.isEmpty), ("value", node.value != ""),
        ("label", node.label.isSome), ("params", !node.params.isEmpty),
        ("address", node.address.isSome)] := by
    simp only [fields, List.map_cons, List.map_nil, Option.isSome_some, hlist, htext,
      Option.isSome_map]
  rw [toJson_eq_written, Json.names, Json.members?, Option.getD_some, Json.map_fst_written,
    filledFields, ← hfilled, List.filter_map, List.map_map]
  rfl

end Node

/-! ### Programs -/

namespace Variable

/-- What is written for the kind of a variable. -/
def kindToJson : Option SymbolKind → Json
  | some kind => .string kind.text
  | none => .null

theorem toJson_eq (place : Variable) :
    place.toJson = .object
      [("name", .string place.name), ("address", place.address.toJson),
        ("kind", kindToJson place.kind),
        ("indexed", .bool place.indexed), ("pointer", .bool place.pointer)] :=
  rfl

theorem kindOfJson?_kindToJson (kind : Option SymbolKind) :
    kindOfJson? (kindToJson kind) = some kind := by
  cases kind with
  | none => rfl
  | some kind => exact congrArg (Option.map some) (SymbolKind.read?_text kind)

theorem ofJson?_toJson (place : Variable) : ofJson? place.toJson = some place := by
  have hname : place.toJson.field? "name" Json.text? = some place.name := rfl
  have haddress : place.toJson.field? "address" Address.ofJson? = some place.address :=
    Address.ofJson?_toJson place.address
  have hkind : place.toJson.field? "kind" kindOfJson? = some place.kind :=
    kindOfJson?_kindToJson place.kind
  have hindexed : place.toJson.field? "indexed" Json.flag? = some place.indexed := rfl
  have hpointer : place.toJson.field? "pointer" Json.flag? = some place.pointer := rfl
  rw [ofJson?, hname, haddress, hkind, hindexed, hpointer]
  rfl

end Variable

namespace Program

/-- A map is decoded if its values are. -/
theorem mapOfJson?_mapJson {β : Type} {encode : β → Json} {decode : Json → Option β}
    (h : ∀ value, decode (encode value) = some value) (map : AddressMap β) :
    mapOfJson? decode (mapJson encode map) = some map := by
  have hentries : (map.toList.map fun entry => (Text.decimal entry.1.toNat, encode entry.2)).mapM
      (mapMember? decode) =
      some map.toList := by
    refine mapM_map_eq_some fun entry _ => ?_
    rw [mapMember?, Text.readNat?_decimal entry.1.toNat_lt, h]
    exact congrArg (fun address => some (address, entry.2)) UInt16.ofNat_toNat
  change ((map.toList.map fun entry => (Text.decimal entry.1.toNat, encode entry.2)).mapM
      (mapMember? decode)).bind
    (fun entries => some (Std.ExtTreeMap.ofList entries)) = some map
  rw [hentries, Option.bind_some, ofList_toList]

theorem names_toJson (program : Program) :
    program.toJson.names = ["program", "subroutines", "kernal_calls", "variables"] :=
  rfl

/-- Every program is decoded from its JSON form, with all its maps. -/
theorem ofJson?_toJson (program : Program) : ofJson? program.toJson = some program := by
  have hroot : program.toJson.field? "program" Node.ofJson? = some program.root :=
    Node.ofJson?_toJson program.root
  have hsubroutines : program.toJson.field? "subroutines" (mapOfJson? Json.text?)
      = some program.subroutines :=
    mapOfJson?_mapJson Json.text?_string program.subroutines
  have hromCalls : program.toJson.field? "kernal_calls" (mapOfJson? Json.text?)
      = some program.romCalls :=
    mapOfJson?_mapJson Json.text?_string program.romCalls
  have hvariables : program.toJson.field? "variables" (mapOfJson? Variable.ofJson?)
      = some program.variableMap :=
    mapOfJson?_mapJson Variable.ofJson?_toJson program.variableMap
  rw [ofJson?, hroot, hsubroutines, hromCalls, hvariables]
  rfl

end Program

end Lift6502
