import ClassLayout.Declaration.Json
import ClassLayout.Proofs.Records

/-!
# ClassLayout.Proofs.Declaration

The records of a class declaration in JSON. Each record has its table of fields (`slots`) and its
reader; `Draft.after` is what the reader holds when it has read some fields, whichever they were.

For each record:
* the fields of the table are entered (`enters`) and others are passed over, so that
* an object that writes the record is read as the record (`decode_of_written`).

A call site differs: it keeps the fields of its kind, with all those that belong to no record, until
the object ends, and the kind is told from what was kept (`CallSite.ofKept?_keptOf`).
-/

namespace ClassLayout

open Json

/-- The names of the fields of all records. -/
def fieldNames : List String :=
  ["name", "methods", "call_sites", "parameters", "accessibility", "is_static", "is_constructor",
   "annotations", "return_type", "line", "column", "end_line", "type_name", "array_dimensions",
   "variable_arity", "kind", "qualifier", "arg_count", "enclosing_method", "parent"]

/-! ## Parameters -/

namespace Parameter

/-- The fields of a parameter. -/
def slots (parameter : Parameter) : List Slot :=
  [.required "type_name" (.text parameter.typeName),
   .defaulted "array_dimensions" (parameter.arrayDimensions = 0) (.ofNat parameter.arrayDimensions),
   .defaulted "variable_arity" (parameter.variableArity = false) (.bool parameter.variableArity)]

/-- The objects that write a parameter. -/
def Written (parameter : Parameter) (v : Value) : Prop :=
  ∃ fields, v = .object fields ∧ Lists fieldNames parameter.slots fields

/-- The numbers of a parameter are words of 64 bits. -/
def InRange (parameter : Parameter) : Prop :=
  parameter.arrayDimensions < 2 ^ 64

/-- What has been read of a parameter after some fields. -/
def Draft.after (parameter : Parameter) (read : List (String × Value)) : Draft where
  typeName := entry read "type_name" parameter.typeName
  arrayDimensions := entry read "array_dimensions" parameter.arrayDimensions
  variableArity := entry read "variable_arity" parameter.variableArity

theorem isTable_slots (parameter : Parameter) : IsTable fieldNames parameter.slots where
  nodup := by
    simp only [slots, Slot.required, Slot.defaulted, List.map_cons, List.map_nil]
    decide
  used := by simp [slots, Slot.required, Slot.defaulted, fieldNames]

theorem enters {parameter : Parameter} (h : parameter.InRange) :
    ∀ slot ∈ parameter.slots, Enters Draft.put (Draft.after parameter) slot := by
  simp only [slots, List.forall_mem_cons]
  refine ⟨?_, ?_, ?_, nofun⟩
  · exact .once Decode.text ({ · with typeName := · }) (Slot.decodes_required rfl)
      (fun _ _ => rfl) (by simp [Draft.after, entry_cons, Slot.required])
  · exact .once Decode.nat ({ · with arrayDimensions := · })
      (Slot.decodes_defaulted (Decode.nat_ofNat h))
      (fun _ _ => rfl) (by simp [Draft.after, entry_cons, Slot.defaulted])
  · exact .once Decode.bool ({ · with variableArity := · }) (Slot.decodes_defaulted rfl)
      (fun _ _ => rfl) (by simp [Draft.after, entry_cons, Slot.defaulted])

theorem Draft.put_other (draft : Draft) (key : String) (doc : Doc) (hkey : key ∉ fieldNames) :
    draft.put key doc = Decode.skip doc >>= fun _ => pure draft := by
  unfold Draft.put
  split
  case h_4 => rfl
  all_goals exact absurd (by decide) hkey

theorem Draft.after_other (parameter : Parameter) (field : String × Value)
    (h : IsOther fieldNames field) (read : List (String × Value)) :
    Draft.after parameter (field :: read) = Draft.after parameter read := by
  simp (disch := decide) only [Draft.after, entry_cons_other h]

theorem finish_after {parameter : Parameter} {read : List (String × Value)}
    (h : Lists fieldNames parameter.slots read) :
    (Draft.after parameter read).finish = .ok parameter := by
  have hkeys := h.mem_keys parameter.isTable_slots
  simp only [slots, List.forall_mem_cons, Slot.required, Slot.defaulted] at hkeys
  obtain ⟨htype, hdimensions, harity, -⟩ := hkeys
  simp only [Draft.finish, Draft.after]
  rw [required_entry htype, getD_entry hdimensions, getD_entry harity]
  rfl

theorem reads {parameter : Parameter} (h : parameter.InRange) :
    Reads fieldNames parameter.slots parameter Draft.put Draft.finish (Draft.after parameter) where
  table := parameter.isTable_slots
  enters := enters h
  passes := passes_of_skip Draft.put_other (Draft.after_other parameter)
  finish := fun _ => finish_after

theorem decode_of_written {parameter : Parameter} (h : parameter.InRange)
    (hv : parameter.Written v) : decode (.ofValue v) = .ok parameter := by
  obtain ⟨fields, rfl, hlists⟩ := hv
  exact (reads h).object hlists

end Parameter

/-! ## Methods -/

theorem Accessibility.decode_toJson (accessibility : Accessibility) :
    decode (.ofValue accessibility.toJson) = .ok accessibility := by
  cases accessibility with
  | _ => rfl

theorem ReturnType.decode_toJson (type : ReturnType) :
    decode (.ofValue type.toJson) = .ok type := by
  cases type with
  | _ => rfl

namespace MethodDeclaration

/-- The fields of a method. -/
def slots (method : MethodDeclaration) : List Slot :=
  [.required "name" (.text method.name),
   .list "parameters" Parameter.Written method.parameters,
   .defaulted "accessibility" (method.accessibility = .packageAccess) method.accessibility.toJson,
   .defaulted "is_static" (method.isStatic = false) (.bool method.isStatic),
   .defaulted "is_constructor" (method.isConstructor = false) (.bool method.isConstructor),
   .list "annotations" (fun annotation v => v = .text annotation) method.annotations,
   .defaulted "return_type" (method.returnType = .void) method.returnType.toJson,
   .required "line" (.ofNat method.line),
   .defaulted "column" (method.column = 0) (.ofNat method.column),
   .required "end_line" (.ofNat method.endLine)]

/-- The objects that write a method. -/
def Written (method : MethodDeclaration) (v : Value) : Prop :=
  ∃ fields, v = .object fields ∧ Lists fieldNames method.slots fields

/-- The numbers of a method are words of 64 bits. -/
structure InRange (method : MethodDeclaration) : Prop where
  parameters : ∀ parameter ∈ method.parameters, parameter.InRange
  line : method.line < 2 ^ 64
  column : method.column < 2 ^ 64
  endLine : method.endLine < 2 ^ 64

/-- What has been read of a method after some fields. -/
def Draft.after (method : MethodDeclaration) (read : List (String × Value)) : Draft where
  name := entry read "name" method.name
  parameters := entry read "parameters" method.parameters
  accessibility := entry read "accessibility" method.accessibility
  isStatic := entry read "is_static" method.isStatic
  isConstructor := entry read "is_constructor" method.isConstructor
  annotations := entry read "annotations" method.annotations
  returnType := entry read "return_type" method.returnType
  line := entry read "line" method.line
  column := entry read "column" method.column
  endLine := entry read "end_line" method.endLine

theorem isTable_slots (method : MethodDeclaration) : IsTable fieldNames method.slots where
  nodup := by
    simp only [slots, Slot.required, Slot.defaulted, Slot.list, List.map_cons, List.map_nil]
    decide
  used := by simp [slots, Slot.required, Slot.defaulted, Slot.list, fieldNames]

theorem enters {method : MethodDeclaration} (h : method.InRange) :
    ∀ slot ∈ method.slots, Enters Draft.put (Draft.after method) slot := by
  simp only [slots, List.forall_mem_cons]
  refine ⟨?_, ?_, ?_, ?_, ?_, ?_, ?_, ?_, ?_, ?_, nofun⟩
  · exact .once Decode.text ({ · with name := · }) (Slot.decodes_required rfl)
      (fun _ _ => rfl) (by simp [Draft.after, entry_cons, Slot.required])
  · have hread : (Slot.list "parameters" Parameter.Written method.parameters).Decodes
        (Decode.list Parameter.decode) method.parameters :=
      Slot.decodes_list fun parameter hmem _ => Parameter.decode_of_written (h.parameters _ hmem)
    exact .once _ ({ · with parameters := · }) hread
      (fun _ _ => rfl) (by simp [Draft.after, entry_cons, Slot.list])
  · exact .once Accessibility.decode ({ · with accessibility := · })
      (Slot.decodes_defaulted method.accessibility.decode_toJson)
      (fun _ _ => rfl) (by simp [Draft.after, entry_cons, Slot.defaulted])
  · exact .once Decode.bool ({ · with isStatic := · }) (Slot.decodes_defaulted rfl)
      (fun _ _ => rfl) (by simp [Draft.after, entry_cons, Slot.defaulted])
  · exact .once Decode.bool ({ · with isConstructor := · }) (Slot.decodes_defaulted rfl)
      (fun _ _ => rfl) (by simp [Draft.after, entry_cons, Slot.defaulted])
  · have hread : (Slot.list "annotations" (fun annotation v => v = .text annotation)
        method.annotations).Decodes (Decode.list Decode.text) method.annotations :=
      Slot.decodes_list fun annotation _ v hv => by rw [hv]; rfl
    exact .once _ ({ · with annotations := · }) hread
      (fun _ _ => rfl) (by simp [Draft.after, entry_cons, Slot.list])
  · exact .once ReturnType.decode ({ · with returnType := · })
      (Slot.decodes_defaulted method.returnType.decode_toJson)
      (fun _ _ => rfl) (by simp [Draft.after, entry_cons, Slot.defaulted])
  · exact .once Decode.nat ({ · with line := · }) (Slot.decodes_required (Decode.nat_ofNat h.line))
      (fun _ _ => rfl) (by simp [Draft.after, entry_cons, Slot.required])
  · exact .once Decode.nat ({ · with column := · })
      (Slot.decodes_defaulted (Decode.nat_ofNat h.column))
      (fun _ _ => rfl) (by simp [Draft.after, entry_cons, Slot.defaulted])
  · exact .once Decode.nat ({ · with endLine := · })
      (Slot.decodes_required (Decode.nat_ofNat h.endLine))
      (fun _ _ => rfl) (by simp [Draft.after, entry_cons, Slot.required])

theorem Draft.put_other (draft : Draft) (key : String) (doc : Doc) (hkey : key ∉ fieldNames) :
    draft.put key doc = Decode.skip doc >>= fun _ => pure draft := by
  unfold Draft.put
  split
  case h_11 => rfl
  all_goals exact absurd (by decide) hkey

theorem Draft.after_other (method : MethodDeclaration) (field : String × Value)
    (h : IsOther fieldNames field) (read : List (String × Value)) :
    Draft.after method (field :: read) = Draft.after method read := by
  simp (disch := decide) only [Draft.after, entry_cons_other h]

theorem finish_after {method : MethodDeclaration} {read : List (String × Value)}
    (h : Lists fieldNames method.slots read) : (Draft.after method read).finish = .ok method := by
  have hkeys := h.mem_keys method.isTable_slots
  simp only [slots, List.forall_mem_cons, Slot.required, Slot.defaulted, Slot.list] at hkeys
  obtain ⟨hname, hparameters, haccessibility, hstatic, hconstructor, hannotations, hreturn, hline,
    hcolumn, hend, -⟩ := hkeys
  simp only [Draft.finish, Draft.after]
  rw [required_entry hname, required_entry hline, required_entry hend, getD_entry hparameters,
    getD_entry haccessibility, getD_entry hstatic, getD_entry hconstructor, getD_entry hannotations,
    getD_entry hreturn, getD_entry hcolumn]
  rfl

theorem reads {method : MethodDeclaration} (h : method.InRange) :
    Reads fieldNames method.slots method Draft.put Draft.finish (Draft.after method) where
  table := method.isTable_slots
  enters := enters h
  passes := passes_of_skip Draft.put_other (Draft.after_other method)
  finish := fun _ => finish_after

theorem decode_of_written {method : MethodDeclaration} (h : method.InRange)
    (hv : method.Written v) : decode (.ofValue v) = .ok method := by
  obtain ⟨fields, rfl, hlists⟩ := hv
  exact (reads h).object hlists

end MethodDeclaration

/-! ## Call sites -/

theorem Qualifier.ofKept?_toJson (qualifier : Qualifier) :
    ofKept? (.ofValue qualifier.toJson) = some qualifier := by
  cases qualifier with
  | _ => rfl

theorem Qualifier.inspect_toJson (qualifier : Qualifier) :
    Decode.inspect CallSite.depth (.ofValue qualifier.toJson) = .ok () := by
  cases qualifier with
  | _ => rfl

namespace CallKind

/-- The fields of a kind of call site. -/
def slots : CallKind → List Slot
  | .call qualifier argCount =>
    [.required "kind" (.text "call"),
     .defaulted "qualifier" (qualifier = .unqualified) qualifier.toJson,
     .defaulted "arg_count" (argCount = 0) (.ofNat argCount)]
  | .reference qualifier =>
    [.required "kind" (.text "method_reference"),
     .required "qualifier" qualifier.toJson]

/-- The number of arguments is a word of 64 bits. -/
def InRange : CallKind → Prop
  | .call _ argCount => argCount < 2 ^ 64
  | .reference _ => True

end CallKind

namespace CallSite

/-- The fields of a call site, with those of its kind. -/
def slots (site : CallSite) : List Slot :=
  .required "name" (.text site.name) :: site.kind.slots ++
    [.required "line" (.ofNat site.line),
     .defaulted "column" (site.column = 0) (.ofNat site.column),
     .defaulted "enclosing_method" (site.enclosingMethod = none)
       (.ofOption .ofNat site.enclosingMethod),
     .defaulted "parent" (site.parent = none) (.ofOption .ofNat site.parent)]

/-- The objects that write a call site. -/
def Written (site : CallSite) (v : Value) : Prop :=
  ∃ fields, v = .object fields ∧ Lists fieldNames site.slots fields

/-- The numbers of a call site are words of 64 bits. -/
structure InRange (site : CallSite) : Prop where
  kind : site.kind.InRange
  line : site.line < 2 ^ 64
  column : site.column < 2 ^ 64
  enclosingMethod : ∀ id ∈ site.enclosingMethod, id < 2 ^ 64
  parent : ∀ id ∈ site.parent, id < 2 ^ 64

/-- The names of the fields that are read at once; all others are kept. -/
def ownNames : List String :=
  ["name", "line", "column", "enclosing_method", "parent"]

/-- The fields that have been kept. -/
def keptOf (read : List (String × Value)) : List (String × Doc) :=
  (read.filter (·.1 ∉ ownNames)).map fun field => (field.1, .ofValue field.2)

/-- What has been read of a call site after some fields. -/
def Draft.after (site : CallSite) (read : List (String × Value)) : Draft where
  name := entry read "name" site.name
  line := entry read "line" site.line
  column := entry read "column" site.column
  enclosingMethod := entry read "enclosing_method" site.enclosingMethod
  parent := entry read "parent" site.parent
  kept := keptOf read

theorem isTable_slots (site : CallSite) : IsTable fieldNames site.slots := by
  cases hkind : site.kind with
  | _ =>
      constructor
      · simp only [slots, hkind, CallKind.slots, Slot.required, Slot.defaulted, List.cons_append,
          List.nil_append, List.map_cons, List.map_nil]
        decide
      · simp [slots, hkind, CallKind.slots, Slot.required, Slot.defaulted, fieldNames]

/-- A field that is not read at once is kept, unless there is a fault in it. -/
theorem Draft.put_kept (draft : Draft) {key : String} (hkey : key ∉ ownNames) (doc : Doc) :
    draft.put key doc = Decode.inspect CallSite.depth doc >>= fun _ =>
      pure { draft with kept := (key, doc) :: draft.kept } := by
  unfold Draft.put
  split
  case h_6 => rfl
  all_goals exact absurd (by decide) hkey

theorem Draft.after_kept (site : CallSite) {key : String} (hkey : key ∉ ownNames) (v : Value)
    (read : List (String × Value)) :
    Draft.after site ((key, v) :: read) = { Draft.after site read with
      kept := (key, .ofValue v) :: (Draft.after site read).kept } := by
  have hentry {β : Type} (name : String) (hname : name ∈ ownNames) (b : β) :
      entry ((key, v) :: read) name b = entry read name b := by
    have hne : name ≠ key := fun heq => hkey (heq ▸ hname)
    rw [entry_cons, if_neg hne]
  have hkept : keptOf ((key, v) :: read) = (key, .ofValue v) :: keptOf read := by
    simp [keptOf, hkey]
  simp (disch := decide) only [Draft.after, hentry, hkept]

theorem put_after_kept (site : CallSite) {key : String} (hkey : key ∉ ownNames)
    (hv : Decode.inspect CallSite.depth (.ofValue v) = .ok ()) (read : List (String × Value)) :
    (Draft.after site read).put key (.ofValue v) = .ok (Draft.after site ((key, v) :: read)) := by
  rw [Draft.put_kept _ hkey, hv, Draft.after_kept site hkey]
  rfl

/-- The fields of the kind are kept, and there is no fault in them. -/
theorem kept_of_kind {kind : CallKind} (h : kind.InRange) :
    ∀ slot ∈ kind.slots, slot.key ∉ ownNames ∧
      ∀ v, slot.writes v → Decode.inspect CallSite.depth (.ofValue v) = .ok () := by
  cases kind with
  | call qualifier argCount =>
      simp only [CallKind.slots, List.forall_mem_cons, Slot.required, Slot.defaulted]
      refine ⟨⟨by decide, ?_⟩, ⟨by decide, ?_⟩, ⟨by decide, ?_⟩, nofun⟩
      · rintro v rfl
        rfl
      · rintro v rfl
        exact qualifier.inspect_toJson
      · rintro v rfl
        simp only [Value.ofNat, Doc.ofValue, Decode.inspect, Numeral.isInRange_ofInt h, if_true]
  | reference qualifier =>
      simp only [CallKind.slots, List.forall_mem_cons, Slot.required]
      refine ⟨⟨by decide, ?_⟩, ⟨by decide, ?_⟩, nofun⟩
      · rintro v rfl
        rfl
      · rintro v rfl
        exact qualifier.inspect_toJson

theorem enters {site : CallSite} (h : site.InRange) :
    ∀ slot ∈ site.slots, Enters Draft.put (Draft.after site) slot := by
  simp only [slots, List.forall_mem_append, List.forall_mem_cons]
  refine ⟨⟨?_, ?_⟩, ?_, ?_, ?_, ?_, nofun⟩
  · exact .once Decode.text ({ · with name := · }) (Slot.decodes_required rfl)
      (fun _ _ => rfl) (by simp [Draft.after, entry_cons, Slot.required, keptOf, ownNames])
  · -- a field of the kind is kept even if it was kept before
    intro slot hslot v hv read _
    obtain ⟨hkey, hinspect⟩ := kept_of_kind h.kind slot hslot
    exact put_after_kept site hkey (hinspect v hv) read
  · exact .once Decode.nat ({ · with line := · }) (Slot.decodes_required (Decode.nat_ofNat h.line))
      (fun _ _ => rfl) (by simp [Draft.after, entry_cons, Slot.required, keptOf, ownNames])
  · exact .once Decode.nat ({ · with column := · })
      (Slot.decodes_defaulted (Decode.nat_ofNat h.column))
      (fun _ _ => rfl) (by simp [Draft.after, entry_cons, Slot.defaulted, keptOf, ownNames])
  · exact .once (Decode.option Decode.nat) ({ · with enclosingMethod := · })
      (Slot.decodes_defaulted (Decode.option_ofOption h.enclosingMethod))
      (fun _ _ => rfl) (by simp [Draft.after, entry_cons, Slot.defaulted, keptOf, ownNames])
  · exact .once (Decode.option Decode.nat) ({ · with parent := · })
      (Slot.decodes_defaulted (Decode.option_ofOption h.parent))
      (fun _ _ => rfl) (by simp [Draft.after, entry_cons, Slot.defaulted, keptOf, ownNames])

theorem passes (site : CallSite) (field : String × Value) (h : IsOther fieldNames field)
    (read : List (String × Value)) :
    (Draft.after site read).put field.1 (.ofValue field.2) =
      .ok (Draft.after site (field :: read)) := by
  have hown : ∀ name ∈ ownNames, name ∈ fieldNames := by decide
  exact put_after_kept site (fun hname => h.key (hown _ hname)) (h.inspect CallSite.depth) read

theorem keptAs_keptOf {name : String} (hname : name ∉ ownNames) (read : List (String × Value)) :
    keptAs name (keptOf read) = (read.filter (·.1 == name)).map (.ofValue ·.2) := by
  have hfilter : (read.filter (·.1 ∉ ownNames)).filter (·.1 == name) =
      read.filter (·.1 == name) := by
    rw [List.filter_filter]
    apply List.filter_congr
    intro field _
    by_cases hfield : field.1 = name
    · simp [hfield, hname]
    · simp [hfield]
  rw [← hfilter, keptAs, keptOf, List.filter_map, List.map_map]
  rfl

/-- A field of the kind among those that were kept is read, or has its default. -/
theorem keptOnce?_keptOf {slots : List Slot} {read : List (String × Value)}
    (h : Lists fieldNames slots read) (htable : IsTable fieldNames slots) {slot : Slot}
    (hslot : slot ∈ slots) (hkey : slot.key ∉ ownNames) {read? : Doc → Option α}
    (hread : ∀ v, slot.writes v → read? (.ofValue v) = some a)
    (hdefault : slot.isDefault → default? = some a) :
    keptOnce? read? default? (keptAs slot.key (keptOf read)) = some a := by
  rw [keptAs_keptOf hkey]
  cases h.filter_key htable hslot with
  | inl hone =>
      obtain ⟨v, hv, hfilter⟩ := hone
      rw [hfilter]
      exact hread v hv
  | inr hleft =>
      rw [hleft.2]
      exact hdefault hleft.1

/-- What was kept tells the kind. -/
theorem ofKept?_keptOf {site : CallSite} (hrange : site.kind.InRange)
    {read : List (String × Value)} (h : Lists fieldNames site.slots read) :
    CallKind.ofKept? (keptOf read) = some site.kind := by
  have hmem : ∀ slot ∈ site.kind.slots, slot ∈ site.slots :=
    fun slot hslot => List.mem_append_left _ (List.mem_cons_of_mem _ hslot)
  have htable := site.isTable_slots
  cases hkind : site.kind with
  | call qualifier argCount =>
      simp only [hkind, CallKind.slots, List.forall_mem_cons] at hmem
      rw [hkind] at hrange
      obtain ⟨hword, hqualifier, hcount, -⟩ := hmem
      have hreference : keptOnce? isReferenceOfKept? none (keptAs "kind" (keptOf read)) =
          some false := keptOnce?_keptOf h htable hword (by decide) (by rintro v rfl; rfl) nofun
      have hqualifier : keptOnce? Qualifier.ofKept? (some .unqualified)
          (keptAs "qualifier" (keptOf read)) = some qualifier :=
        keptOnce?_keptOf h htable hqualifier (by simp [Slot.defaulted, ownNames])
          (by rintro v rfl; exact qualifier.ofKept?_toJson) (by rintro rfl; rfl)
      have hcount : keptOnce? natOfKept? (some 0) (keptAs "arg_count" (keptOf read)) =
          some argCount :=
        keptOnce?_keptOf h htable hcount (by simp [Slot.defaulted, ownNames])
          (by rintro v rfl; exact Numeral.toNat?_ofInt hrange) (by rintro rfl; rfl)
      simp only [CallKind.ofKept?, hreference, hqualifier, hcount]
      rfl
  | reference qualifier =>
      simp only [hkind, CallKind.slots, List.forall_mem_cons] at hmem
      obtain ⟨hword, hqualifier, -⟩ := hmem
      have hreference : keptOnce? isReferenceOfKept? none (keptAs "kind" (keptOf read)) =
          some true := keptOnce?_keptOf h htable hword (by decide) (by rintro v rfl; rfl) nofun
      have hqualifier : keptOnce? Qualifier.ofKept? none (keptAs "qualifier" (keptOf read)) =
          some qualifier :=
        keptOnce?_keptOf h htable hqualifier (by simp [Slot.required, ownNames])
          (by rintro v rfl; exact qualifier.ofKept?_toJson) nofun
      simp only [CallKind.ofKept?, hreference, hqualifier]
      rfl

theorem finish_after {site : CallSite} (hrange : site.kind.InRange)
    {read : List (String × Value)} (h : Lists fieldNames site.slots read) :
    (Draft.after site read).finish = .ok site := by
  have hkeys := h.mem_keys site.isTable_slots
  simp only [slots, List.forall_mem_append, List.forall_mem_cons, Slot.required,
    Slot.defaulted] at hkeys
  obtain ⟨⟨hname, -⟩, hline, hcolumn, hmethod, hparent, -⟩ := hkeys
  simp only [Draft.finish, Draft.after]
  rw [required_entry hname, required_entry hline, ofKept?_keptOf hrange h, getD_entry hcolumn,
    getD_entry hmethod, getD_entry hparent]
  rfl

theorem reads {site : CallSite} (h : site.InRange) :
    Reads fieldNames site.slots site Draft.put Draft.finish (Draft.after site) where
  table := site.isTable_slots
  enters := enters h
  passes := site.passes
  finish := fun _ => finish_after h.kind

theorem decode_of_written {site : CallSite} (h : site.InRange) (hv : site.Written v) :
    decode (.ofValue v) = .ok site := by
  obtain ⟨fields, rfl, hlists⟩ := hv
  exact (reads h).object hlists

end CallSite

/-! ## Classes -/

namespace ClassDeclaration

/-- The fields of a class. -/
def slots (declaration : ClassDeclaration) : List Slot :=
  [.required "name" (.text declaration.name),
   .list "methods" MethodDeclaration.Written declaration.methods,
   .list "call_sites" CallSite.Written declaration.callSites]

/-- The objects that write a class. -/
def Written (declaration : ClassDeclaration) (v : Value) : Prop :=
  ∃ fields, v = .object fields ∧ Lists fieldNames declaration.slots fields

/-- The numbers of a class are words of 64 bits. -/
structure InRange (declaration : ClassDeclaration) : Prop where
  methods : ∀ method ∈ declaration.methods, method.InRange
  callSites : ∀ site ∈ declaration.callSites, site.InRange

/-- What has been read of a class after some fields. -/
def Draft.after (declaration : ClassDeclaration) (read : List (String × Value)) : Draft where
  name := entry read "name" declaration.name
  methods := entry read "methods" declaration.methods
  callSites := entry read "call_sites" declaration.callSites

theorem isTable_slots (declaration : ClassDeclaration) : IsTable fieldNames declaration.slots where
  nodup := by
    simp only [slots, Slot.required, Slot.list, List.map_cons, List.map_nil]
    decide
  used := by simp [slots, Slot.required, Slot.list, fieldNames]

theorem enters {declaration : ClassDeclaration} (h : declaration.InRange) :
    ∀ slot ∈ declaration.slots, Enters Draft.put (Draft.after declaration) slot := by
  simp only [slots, List.forall_mem_cons]
  refine ⟨?_, ?_, ?_, nofun⟩
  · exact .once Decode.text ({ · with name := · }) (Slot.decodes_required rfl)
      (fun _ _ => rfl) (by simp [Draft.after, entry_cons, Slot.required])
  · have hread : (Slot.list "methods" MethodDeclaration.Written declaration.methods).Decodes
        (Decode.list MethodDeclaration.decode) declaration.methods :=
      Slot.decodes_list fun _ hmem _ => MethodDeclaration.decode_of_written (h.methods _ hmem)
    exact .once _ ({ · with methods := · }) hread
      (fun _ _ => rfl) (by simp [Draft.after, entry_cons, Slot.list])
  · have hread : (Slot.list "call_sites" CallSite.Written declaration.callSites).Decodes
        (Decode.list CallSite.decode) declaration.callSites :=
      Slot.decodes_list fun _ hmem _ => CallSite.decode_of_written (h.callSites _ hmem)
    exact .once _ ({ · with callSites := · }) hread
      (fun _ _ => rfl) (by simp [Draft.after, entry_cons, Slot.list])

theorem Draft.put_other (draft : Draft) (key : String) (doc : Doc) (hkey : key ∉ fieldNames) :
    draft.put key doc = Decode.skip doc >>= fun _ => pure draft := by
  unfold Draft.put
  split
  case h_4 => rfl
  all_goals exact absurd (by decide) hkey

theorem Draft.after_other (declaration : ClassDeclaration) (field : String × Value)
    (h : IsOther fieldNames field) (read : List (String × Value)) :
    Draft.after declaration (field :: read) = Draft.after declaration read := by
  simp (disch := decide) only [Draft.after, entry_cons_other h]

theorem finish_after {declaration : ClassDeclaration} {read : List (String × Value)}
    (h : Lists fieldNames declaration.slots read) :
    (Draft.after declaration read).finish = .ok declaration := by
  have hkeys := h.mem_keys declaration.isTable_slots
  simp only [slots, List.forall_mem_cons, Slot.required, Slot.list] at hkeys
  obtain ⟨hname, hmethods, hsites, -⟩ := hkeys
  simp only [Draft.finish, Draft.after]
  rw [required_entry hname, getD_entry hmethods, getD_entry hsites]
  rfl

theorem reads {declaration : ClassDeclaration} (h : declaration.InRange) :
    Reads fieldNames declaration.slots declaration Draft.put Draft.finish
      (Draft.after declaration) where
  table := declaration.isTable_slots
  enters := enters h
  passes := passes_of_skip Draft.put_other (Draft.after_other declaration)
  finish := fun _ => finish_after

theorem decode_of_written {declaration : ClassDeclaration} (h : declaration.InRange)
    (hv : declaration.Written v) : decode (.ofValue v) = .ok declaration := by
  obtain ⟨fields, rfl, hlists⟩ := hv
  exact (reads h).object hlists

end ClassDeclaration

end ClassLayout
