import SchemaGraph.Graph.Record
import SchemaGraph.Proofs.Json.Compact

/-!
# Records of elements

The record of an element has all that is known of it (`Element.toJson_injective`), so
its compact text does too, where no option is an infinite or NaN double
(`Element.eq_of_compact`).
-/

namespace SchemaGraph

theorem DataType.name_injective : Function.Injective DataType.name := by
  intro t t' h
  cases t <;> cases t' <;> first | rfl | simp [DataType.name] at h

theorem FieldLabel.name_injective : Function.Injective FieldLabel.name := by
  intro l l' h
  cases l <;> cases l' <;> first | rfl | simp [FieldLabel.name] at h

namespace Json

theorem ofInt32_injective : Function.Injective ofInt32 := fun _ _ h =>
  Int32.toInt_inj.mp (Json.int.inj h)

theorem nat_injective : Function.Injective nat := fun _ _ h => Int.ofNat_inj.mp (Json.int.inj h)

theorem ofOption_injective : Function.Injective ofOption := by
  intro s s' h
  cases s <;> cases s' <;> first | rfl | cases h
  rfl

theorem strings_injective : Function.Injective strings := fun _ _ h =>
  List.map_injective_iff.mpr (fun _ _ h => Json.string.inj h) (Json.array.inj h)

theorem ofBytes_injective : Function.Injective ofBytes := fun _ _ h =>
  List.map_injective_iff.mpr (fun _ _ h => UInt8.toNat_inj.mp (nat_injective h)) (Json.array.inj h)

end Json

/-! ## Records name what they are of -/

theorem OptionValue.toJson_injective : Function.Injective OptionValue.toJson := by
  intro v v' h
  cases v <;> cases v' <;>
    simp_all [toJson, Int64.toInt_inj, UInt64.toNat_inj, Json.nat_injective.eq_iff,
      Json.ofInt32_injective.eq_iff, Json.ofBytes_injective.eq_iff]

theorem CustomOption.toJson_injective : Function.Injective CustomOption.toJson := by
  rintro ⟨name, number, value⟩ ⟨name', number', value'⟩ h
  simpa [toJson, Json.ofInt32_injective.eq_iff, OptionValue.toJson_injective.eq_iff] using h

/-- The record of a named number. -/
theorem enumValue_injective : Function.Injective fun v : EnumValue =>
    Json.object [("name", .string v.name), ("number", .ofInt32 v.number)] := by
  rintro ⟨name, number⟩ ⟨name', number'⟩ h
  simpa [Json.ofInt32_injective.eq_iff] using h

theorem ElementInfo.toJson_injective : Function.Injective ElementInfo.toJson := by
  intro info info' h
  cases info with
  | message m =>
      cases info' with
      | message m' =>
          obtain ⟨fields, messages, enums, isMapEntry⟩ := m
          obtain ⟨fields', messages', enums', isMapEntry'⟩ := m'
          simpa [toJson, Json.strings_injective.eq_iff] using h
      | _ => simp [toJson] at h
  | field f =>
      cases info' with
      | field f' =>
          obtain ⟨number, label, nativeType, isMessageType, group, jsonName⟩ := f
          obtain ⟨number', label', nativeType', isMessageType', group', jsonName'⟩ := f'
          simpa [toJson, Json.ofInt32_injective.eq_iff, FieldLabel.name_injective.eq_iff,
            Json.ofOption_injective.eq_iff] using h
      | _ => simp [toJson] at h
  | oneOf fields =>
      cases info' with
      | oneOf fields' => simpa [toJson, Json.strings_injective.eq_iff] using h
      | _ => simp [toJson] at h
  | enum values =>
      cases info' with
      | enum values' =>
          have hvalues := (List.map_injective_iff.mpr enumValue_injective).eq_iff
            (a := values) (b := values')
          simpa [toJson, hvalues] using h
      | _ => simp [toJson] at h

theorem Element.toJson_injective : Function.Injective Element.toJson := by
  intro e e' h
  have hoptions := (List.map_injective_iff.mpr CustomOption.toJson_injective).eq_iff
    (a := e.options) (b := e'.options)
  obtain ⟨fullName, name, file, package, parent, pathType, dataType, comment, majorVersion, options,
    info⟩ := e
  obtain ⟨fullName', name', file', package', parent', pathType', dataType', comment', majorVersion',
    options', info'⟩ := e'
  -- Without options the entry for them is missing, so the data comes in its place.
  by_cases hnil : options = [] <;> by_cases hnil' : options' = [] <;>
    simp_all [toJson, Json.ofOption_injective.eq_iff, DataType.name_injective.eq_iff,
      Json.ofInt32_injective.eq_iff, ElementInfo.toJson_injective.eq_iff]

/-! ## Infinite and NaN options -/

/-- Whether a value is no infinite or NaN double. -/
def OptionValue.isFinite : OptionValue → Bool
  | .float x => x.isFinite
  | _ => true

/-- No option of an element is an infinite or NaN double. -/
def Element.HasFiniteOptions (e : Element) : Prop := ∀ o ∈ e.options, o.value.isFinite = true

instance (e : Element) : Decidable e.HasFiniteOptions :=
  inferInstanceAs (Decidable (∀ o ∈ e.options, o.value.isFinite = true))

namespace Json

theorem finite_variant {name : String} {v : Json} (h : v.Finite) :
    (object [(name, v)]).Finite := .object (List.forall_mem_singleton.mpr h)

theorem finite_ofOption (s : Option String) : (ofOption s).Finite := by
  cases s with
  | none => exact .null
  | some s => exact .string s

theorem finite_strings (ss : List String) : (strings ss).Finite := by
  refine .array fun v hv => ?_
  obtain ⟨s, -, rfl⟩ := List.mem_map.mp hv
  exact .string s

theorem finite_ofBytes (bs : List UInt8) : (ofBytes bs).Finite := by
  refine .array fun v hv => ?_
  obtain ⟨b, -, rfl⟩ := List.mem_map.mp hv
  exact .int _

end Json

theorem OptionValue.finite_toJson {v : OptionValue} (h : v.isFinite = true) : v.toJson.Finite := by
  cases v with
  | bool b => exact Json.finite_variant (.bool b)
  | int n => exact Json.finite_variant (.int _)
  | uint n => exact Json.finite_variant (.int _)
  | float x => exact Json.finite_variant (.float h)
  | string s => exact Json.finite_variant (.string s)
  | bytes bs => exact Json.finite_variant (Json.finite_ofBytes bs)
  | enum n => exact Json.finite_variant (.int _)
  | message bs => exact Json.finite_variant (Json.finite_ofBytes bs)

theorem CustomOption.finite_toJson {o : CustomOption} (h : o.value.isFinite = true) :
    o.toJson.Finite := by
  refine .object ?_
  simp only [List.forall_mem_cons]
  exact ⟨.string _, .int _, OptionValue.finite_toJson h, List.forall_mem_nil _⟩

theorem ElementInfo.finite_toJson (info : ElementInfo) : info.toJson.Finite := by
  cases info with
  | message m =>
      refine Json.finite_variant (.object ?_)
      simp only [List.forall_mem_cons]
      exact ⟨Json.finite_strings _, Json.finite_strings _, Json.finite_strings _, .bool _,
        List.forall_mem_nil _⟩
  | field f =>
      refine Json.finite_variant (.object ?_)
      simp only [List.forall_mem_cons]
      exact ⟨.int _, .string _, .string _, .bool _, Json.finite_ofOption _, Json.finite_ofOption _,
        List.forall_mem_nil _⟩
  | oneOf fields => exact Json.finite_variant (Json.finite_variant (Json.finite_strings _))
  | enum values =>
      refine Json.finite_variant (Json.finite_variant (.array fun v hv => ?_))
      obtain ⟨value, -, rfl⟩ := List.mem_map.mp hv
      refine .object ?_
      simp only [List.forall_mem_cons]
      exact ⟨.string _, .int _, List.forall_mem_nil _⟩

theorem Element.finite_toJson {e : Element} (h : e.HasFiniteOptions) : e.toJson.Finite := by
  have hoptions : ∀ entry ∈ if e.options = [] then []
      else [("options", Json.array (e.options.map CustomOption.toJson))], entry.2.Finite := by
    split
    · exact List.forall_mem_nil _
    · refine List.forall_mem_singleton.mpr (.array fun v hv => ?_)
      obtain ⟨o, ho, rfl⟩ := List.mem_map.mp hv
      exact CustomOption.finite_toJson (h o ho)
  refine .object ?_
  simp only [List.forall_mem_append, List.forall_mem_cons]
  exact ⟨⟨⟨.string _, .string _, .string _, .string _, Json.finite_ofOption _, .string _, .string _,
    .string _, .int _, List.forall_mem_nil _⟩, hoptions⟩, e.info.finite_toJson,
    List.forall_mem_nil _⟩

/-- The compact record of an element has all that is known of it. -/
theorem Element.eq_of_compact {e e' : Element} (h : e.HasFiniteOptions) (h' : e'.HasFiniteOptions)
    (hcompact : e.toJson.compact = e'.toJson.compact) : e = e' :=
  toJson_injective ((finite_toJson h).eq_of_compact (finite_toJson h') hcompact)

end SchemaGraph
