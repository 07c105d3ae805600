import ClassLayout.Proofs.Declaration

/-!
# ClassLayout.Proofs.RoundTrip

A class that is written as JSON is read as it was. More than that, whatever text says the same is
read as the class too: with the fields of its objects in another order, without those that have
their default, with fields that no record has, with white space between the tokens and with any
escapes in the strings.

1. What is written for a class writes it (`ClassDeclaration.written_toJson`), record by record.
2. A text that spells an object that writes a class is read as the class (`ofJson_of_spells`).
-/

namespace ClassLayout

open Json

/-! ## What is written -/

theorem Parameter.written_toJson (parameter : Parameter) : parameter.Written parameter.toJson :=
  ⟨_, rfl, .of_given (.given rfl (.given rfl (.given rfl .nil)))⟩

theorem MethodDeclaration.written_toJson (method : MethodDeclaration) :
    method.Written method.toJson := by
  have hparameters : (Slot.list "parameters" Parameter.Written method.parameters).writes
      (.ofList Parameter.toJson method.parameters) :=
    Slot.writes_list fun parameter _ => parameter.written_toJson
  have hannotations : (Slot.list "annotations" (fun annotation v => v = .text annotation)
      method.annotations).writes (.ofList .text method.annotations) :=
    Slot.writes_list fun _ _ => rfl
  refine ⟨_, rfl, .of_given ?_⟩
  exact .given rfl (.given hparameters (.given rfl (.given rfl (.given rfl (.given hannotations
    (.given rfl (.given rfl (.given rfl (.given rfl .nil)))))))))

theorem CallKind.given_toFields (kind : CallKind) : Given kind.slots kind.toFields := by
  cases kind with
  | call qualifier argCount => exact .given rfl (.given rfl (.given rfl .nil))
  | reference qualifier => exact .given rfl (.given rfl .nil)

theorem CallSite.written_toJson (site : CallSite) : site.Written site.toJson := by
  have hkind := site.kind.given_toFields
  refine ⟨_, rfl, .of_given (.append (.given rfl hkind) ?_)⟩
  exact .given rfl (.given rfl (.given rfl (.given rfl .nil)))

namespace ClassDeclaration

theorem written_toJson (declaration : ClassDeclaration) :
    declaration.Written declaration.toJson := by
  have hmethods : (Slot.list "methods" MethodDeclaration.Written declaration.methods).writes
      (.ofList MethodDeclaration.toJson declaration.methods) :=
    Slot.writes_list fun method _ => method.written_toJson
  have hsites : (Slot.list "call_sites" CallSite.Written declaration.callSites).writes
      (.ofList CallSite.toJson declaration.callSites) :=
    Slot.writes_list fun site _ => site.written_toJson
  exact ⟨_, rfl, .of_given (.given rfl (.given hmethods (.given hsites .nil)))⟩

/-! ## What is read -/

/-- The text spells the tokens of the object, and the object writes the class. -/
theorem ofJson_of_spells {declaration : ClassDeclaration} (h : declaration.InRange)
    (hv : declaration.Written v) {input : String} (hinput : Spells v.tokens input.toList) :
    ofJson input = .ok declaration := by
  rw [ofJson, read_of_spells hinput, Document.decode, decode_of_written h hv]
  rfl

/-- **Round trip**: a class is read from every object that writes it, whichever text the object has.
The object that is written for the class is one of them. -/
theorem ofJson_of_written {declaration : ClassDeclaration} (h : declaration.InRange) :
    declaration.Written declaration.toJson ∧
      ∀ v, declaration.Written v →
        ofJson v.toText = .ok declaration ∧ ofJson v.toIndentedText = .ok declaration ∧
          ∀ input : String, Spells v.tokens input.toList → ofJson input = .ok declaration := by
  refine ⟨declaration.written_toJson, ?_⟩
  intro v hv
  refine ⟨?_, ?_, ?_⟩
  · exact ofJson_of_spells h hv (spells_toText v)
  · exact ofJson_of_spells h hv (spells_toIndentedText v)
  · intro input hinput
    exact ofJson_of_spells h hv hinput

end ClassDeclaration

/-- A class with a method that is called and referred to. -/
def ledger : ClassDeclaration where
  name := "Ledger"
  methods := [{
    name := "post"
    parameters := [{ typeName := "long", arrayDimensions := 1 }]
    accessibility := .publicAccess
    line := 3
    endLine := 18446744073709551615 }]
  callSites := [(CallSite.call "post" 1 5 8).inside 0, CallSite.reference .this "post" 7 0]

/-- The same class with its fields from last to first, without most defaults and with other fields.
-/
def ledgerJson : Value :=
  .object
    [("generated", .bool true),
     ("call_sites", .array [
       .object
         [("note", .text "first\n"), ("parent", .null), ("enclosing_method", .ofNat 0),
          ("column", .ofNat 8), ("line", .ofNat 5), ("arg_count", .ofNat 1),
          ("kind", .text "call"), ("name", .text "post")],
       .object
         [("line", .ofNat 7), ("qualifier", .text "this"), ("kind", .text "method_reference"),
          ("name", .text "post")]]),
     ("methods", .array [
       .object
         [("named", .text ""), ("end_line", .ofNat 18446744073709551615), ("line", .ofNat 3),
          ("accessibility", .text "public"),
          ("parameters", .array [
            .object [("array_dimensions", .ofNat 1), ("type_name", .text "long")]]),
          ("name", .text "post")]]),
     ("name", .text "Ledger")]

theorem ledger_inRange : ledger.InRange := by
  constructor
  · simp only [ledger, List.forall_mem_singleton]
    refine ⟨?_, by decide, by decide, by decide⟩
    simp [Parameter.InRange]
  · simp only [ledger, List.forall_mem_cons]
    refine ⟨⟨?_, ?_, ?_, ?_, ?_⟩, ⟨?_, ?_, ?_, ?_, ?_⟩, nofun⟩
    all_goals simp [CallSite.call, CallSite.inside, CallSite.reference, CallKind.InRange]

theorem lists_reverse (slots : List Slot) {given : List (String × Value)} (h : Given slots given)
    (others : List (String × Value)) (hothers : ∀ field ∈ others, IsOther fieldNames field) :
    Lists fieldNames slots (given ++ others).reverse :=
  ⟨given, others, h, hothers, List.reverse_perm _⟩

theorem ledger_written : ledger.Written ledgerJson := by
  have hnote : IsOther fieldNames ("note", .text "first\n") := ⟨by decide, .inl ⟨_, rfl⟩⟩
  have hnamed : IsOther fieldNames ("named", .text "") := ⟨by decide, .inl ⟨_, rfl⟩⟩
  have hgenerated : IsOther fieldNames ("generated", .bool true) := ⟨by decide, .inr ⟨_, rfl⟩⟩
  have hparameter := lists_reverse ledger.methods[0].parameters[0].slots
    (.given rfl (.given rfl (.leftOut rfl .nil))) [] nofun
  have hmethod := lists_reverse ledger.methods[0].slots
    (.given rfl (.given ⟨_, rfl, .cons ⟨_, rfl, hparameter⟩ .nil⟩ (.given rfl (.leftOut rfl
      (.leftOut rfl (.leftOut rfl (.leftOut rfl (.given rfl (.leftOut rfl (.given rfl .nil))))))))))
    _ (List.forall_mem_singleton.mpr hnamed)
  have hcall := lists_reverse ledger.callSites[0].slots
    (.given rfl (.given rfl (.leftOut rfl (.given rfl (.given rfl (.given rfl (.given rfl
      (.given rfl .nil)))))))) _ (List.forall_mem_singleton.mpr hnote)
  have hreference := lists_reverse ledger.callSites[1].slots
    (.given rfl (.given rfl (.given rfl (.given rfl (.leftOut rfl (.leftOut rfl (.leftOut rfl
      .nil))))))) [] nofun
  have hsites := List.Forall₂.cons (R := CallSite.Written) ⟨_, rfl, hcall⟩
    (.cons ⟨_, rfl, hreference⟩ .nil)
  exact ⟨_, rfl, lists_reverse ledger.slots
    (.given rfl (.given ⟨_, rfl, .cons ⟨_, rfl, hmethod⟩ .nil⟩ (.given ⟨_, rfl, hsites⟩ .nil)))
    _ (List.forall_mem_singleton.mpr hgenerated)⟩

/-- The texts of this object are read as the class, and so is the text that is written for it. -/
theorem ofJson_of_written_ledger :
    ledger.InRange ∧ ledger.Written ledgerJson ∧
      ClassDeclaration.ofJson ledgerJson.toText = .ok ledger ∧
      ClassDeclaration.ofJson ledgerJson.toIndentedText = .ok ledger ∧
      ClassDeclaration.ofJson ledger.toJson.toText = .ok ledger := by
  obtain ⟨htoJson, hread⟩ := ClassDeclaration.ofJson_of_written ledger_inRange
  obtain ⟨htext, hindented, -⟩ := hread ledgerJson ledger_written
  exact ⟨ledger_inRange, ledger_written, htext, hindented, (hread _ htoJson).1⟩

end ClassLayout
