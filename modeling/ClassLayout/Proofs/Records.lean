import ClassLayout.Json.Decode
import ClassLayout.Proofs.JsonText

/-!
# ClassLayout.Proofs.Records

Records as JSON objects. A record has a table of fields (`Slot`), and an object writes it when it
gives these fields in any order, leaves out none but those with their default, and has no others but
texts and truth values under names that are not in use (`Lists`).

Reading goes through the fields one after another. What one field does is the business of the record
(`Reads`): it enters its value where nothing has been entered yet. From this alone follows what the
whole object does (`Reads.run`, by induction on the fields): the reader ends with every field
that was given, so `Reads.object` answers the record itself.
-/

namespace ClassLayout.Json

/-! ## Tables of fields -/

/-- One field of a record. -/
structure Slot where
  key : String
  /-- The value of the field is the one it has when it is left out. -/
  isDefault : Prop
  /-- How the value of the field may be written. -/
  writes : Value → Prop

/-- A field that must be given, with the one way of writing its value. -/
def Slot.required (key : String) (v : Value) : Slot where
  key := key
  isDefault := False
  writes := (· = v)

/-- A field that may be left out when its value is the default. -/
def Slot.defaulted (key : String) (isDefault : Prop) (v : Value) : Slot where
  key := key
  isDefault := isDefault
  writes := (· = v)

/-- A field with a list, which may be left out when the list is empty. -/
def Slot.list (key : String) (written : α → Value → Prop) (items : List α) : Slot where
  key := key
  isDefault := items = []
  writes v := ∃ values, v = .array values ∧ List.Forall₂ written items values

/-- The fields of a record in their order, less some that have their default. -/
inductive Given : List Slot → List (String × Value) → Prop
  | nil : Given [] []
  | given {slot : Slot} {v : Value} (hwrites : slot.writes v) (hrest : Given slots fields) :
      Given (slot :: slots) ((slot.key, v) :: fields)
  | leftOut {slot : Slot} (hdefault : slot.isDefault) (hrest : Given slots fields) :
      Given (slot :: slots) fields

/-- A field that belongs to no record: a text or a truth value under a name that is not in use. -/
structure IsOther (used : List String) (field : String × Value) : Prop where
  key : field.1 ∉ used
  value : (∃ s, field.2 = .text s) ∨ ∃ b, field.2 = .bool b

/-- The fields of an object that writes a record: its own and others, in any order. -/
def Lists (used : List String) (slots : List Slot) (fields : List (String × Value)) : Prop :=
  ∃ given others, Given slots given ∧ (∀ field ∈ others, IsOther used field) ∧
    fields.Perm (given ++ others)

/-- The keys of a table differ, and their names are in use. -/
structure IsTable (used : List String) (slots : List Slot) : Prop where
  nodup : (slots.map (·.key)).Nodup
  used : ∀ slot ∈ slots, slot.key ∈ used

/-- A field that an object may have which writes a record. -/
inductive Fits (used : List String) (slots : List Slot) : String × Value → Prop
  | slot {slot : Slot} {v : Value} (hslot : slot ∈ slots) (hwrites : slot.writes v) :
      Fits used slots (slot.key, v)
  | other (hother : IsOther used field) : Fits used slots field

variable {used : List String} {slots : List Slot} {fields : List (String × Value)}

theorem Slot.writes_list {written : α → Value → Prop} {f : α → Value} {items : List α}
    {key : String} (h : ∀ item ∈ items, written item (f item)) :
    (Slot.list key written items).writes (.ofList f items) := by
  refine ⟨items.map f, rfl, ?_⟩
  rw [List.forall₂_map_right_iff, List.forall₂_same]
  exact h

theorem Given.append (h : Given slots fields) (h' : Given slots' fields') :
    Given (slots ++ slots') (fields ++ fields') := by
  induction h with
  | nil => exact h'
  | given hwrites _ ih => exact .given hwrites ih
  | leftOut hdefault _ ih => exact .leftOut hdefault ih

theorem Given.exists_slot (h : Given slots fields) (hfield : field ∈ fields) :
    ∃ slot ∈ slots, slot.key = field.1 ∧ slot.writes field.2 := by
  induction h with
  | nil => contradiction
  | given hwrites hrest ih =>
      cases List.mem_cons.mp hfield with
      | inl heq => exact ⟨_, List.mem_cons_self, by rw [heq], by rwa [heq]⟩
      | inr hmem =>
          obtain ⟨slot, hslot, hfits⟩ := ih hmem
          exact ⟨slot, List.mem_cons_of_mem _ hslot, hfits⟩
  | leftOut hdefault hrest ih =>
      obtain ⟨slot, hslot, hfits⟩ := ih hfield
      exact ⟨slot, List.mem_cons_of_mem _ hslot, hfits⟩

/-- The fields with a key that is not in the table. -/
theorem Given.filter_key_eq_nil (h : Given slots fields) (hkey : key ∉ slots.map (·.key)) :
    fields.filter (·.1 == key) = [] := by
  rw [List.filter_eq_nil_iff]
  intro field hfield
  obtain ⟨slot, hslot, hsame, -⟩ := h.exists_slot hfield
  rw [beq_iff_eq, ← hsame]
  exact fun heq => hkey (heq ▸ List.mem_map_of_mem hslot)

/-- The fields with a key of the table: one, or none and the field has its default. -/
theorem Given.filter_key (h : Given slots fields) (hnodup : (slots.map (·.key)).Nodup)
    (hslot : slot ∈ slots) :
    (∃ v, slot.writes v ∧ fields.filter (·.1 == slot.key) = [(slot.key, v)]) ∨
      slot.isDefault ∧ fields.filter (·.1 == slot.key) = [] := by
  induction h with
  | nil => contradiction
  | @given slots fields first v hwrites hrest ih =>
      rw [List.map_cons, List.nodup_cons] at hnodup
      cases List.mem_cons.mp hslot with
      | inl heq =>
          subst heq
          left
          refine ⟨v, hwrites, ?_⟩
          rw [List.filter_cons_of_pos (by simp), hrest.filter_key_eq_nil hnodup.1]
      | inr hmem =>
          have hne : ¬ first.key = slot.key :=
            fun heq => hnodup.1 (heq ▸ List.mem_map_of_mem hmem)
          rw [List.filter_cons_of_neg (by simpa using hne)]
          exact ih hnodup.2 hmem
  | leftOut hdefault hrest ih =>
      rw [List.map_cons, List.nodup_cons] at hnodup
      cases List.mem_cons.mp hslot with
      | inl heq =>
          subst heq
          exact .inr ⟨hdefault, hrest.filter_key_eq_nil hnodup.1⟩
      | inr hmem => exact ih hnodup.2 hmem

namespace Lists

theorem of_given (h : Given slots fields) : Lists used slots fields :=
  ⟨fields, [], h, nofun, by rw [List.append_nil]⟩

theorem perm (h : Lists used slots fields) (hperm : fields'.Perm fields) :
    Lists used slots fields' := by
  obtain ⟨given, others, hgiven, hothers, hall⟩ := h
  exact ⟨given, others, hgiven, hothers, hperm.trans hall⟩

theorem fits (h : Lists used slots fields) (hfield : field ∈ fields) : Fits used slots field := by
  obtain ⟨given, others, hgiven, hothers, hall⟩ := h
  cases List.mem_append.mp (hall.mem_iff.mp hfield) with
  | inl hmem =>
      obtain ⟨slot, hslot, hkey, hwrites⟩ := hgiven.exists_slot hmem
      have hfits : Fits used slots (slot.key, field.2) := .slot hslot hwrites
      rwa [hkey] at hfits
  | inr hmem => exact .other (hothers field hmem)

/-- Among the fields of the object there is one for a field of the record, or none and the field has
its default. -/
theorem filter_key (h : Lists used slots fields) (htable : IsTable used slots)
    (hslot : slot ∈ slots) :
    (∃ v, slot.writes v ∧ fields.filter (·.1 == slot.key) = [(slot.key, v)]) ∨
      slot.isDefault ∧ fields.filter (·.1 == slot.key) = [] := by
  obtain ⟨given, others, hgiven, hothers, hall⟩ := h
  have hnone : others.filter (·.1 == slot.key) = [] := by
    rw [List.filter_eq_nil_iff]
    intro field hfield
    rw [beq_iff_eq]
    exact fun heq => (hothers field hfield).key (heq ▸ htable.used slot hslot)
  have hperm := hall.filter (·.1 == slot.key)
  rw [List.filter_append, hnone, List.append_nil] at hperm
  cases hgiven.filter_key htable.nodup hslot with
  | inl hone =>
      obtain ⟨v, hwrites, hfilter⟩ := hone
      rw [hfilter] at hperm
      exact .inl ⟨v, hwrites, List.perm_singleton.mp hperm⟩
  | inr hleft =>
      rw [hleft.2] at hperm
      exact .inr ⟨hleft.1, hperm.eq_nil⟩

/-- No field of the record is given twice. -/
theorem fresh (h : Lists used slots (before ++ (slot.key, v) :: after))
    (htable : IsTable used slots) (hslot : slot ∈ slots) :
    ∀ field ∈ before, field.1 ≠ slot.key := by
  have hone : before.filter (·.1 == slot.key) = [] := by
    cases h.filter_key htable hslot with
    | inl hone =>
        obtain ⟨w, -, hfilter⟩ := hone
        rw [List.filter_append, List.filter_cons_of_pos (by simp)] at hfilter
        cases List.append_eq_singleton_iff.mp hfilter with
        | inl hnil => exact hnil.1
        | inr hcons => exact absurd hcons.2 (List.cons_ne_nil _ _)
    | inr hleft => simp at hleft
  intro field hfield
  simpa using List.filter_eq_nil_iff.mp hone field hfield

/-- A field of the record is given, or has its default. -/
theorem mem_keys (h : Lists used slots fields) (htable : IsTable used slots) (slot : Slot)
    (hslot : slot ∈ slots) : slot.isDefault ∨ slot.key ∈ fields.map (·.1) := by
  cases h.filter_key htable hslot with
  | inl hone =>
      obtain ⟨v, -, hfilter⟩ := hone
      have hmem : (slot.key, v) ∈ fields.filter (·.1 == slot.key) := by simp [hfilter]
      exact .inr (List.mem_map_of_mem (List.mem_filter.mp hmem).1)
  | inr hleft => exact .inl hleft.1

end Lists

/-! ## Reading values -/

/-- A list is read item by item. -/
theorem Decode.list_of_forall₂ {decode : Decoder α} {items : List α} {values : List Value}
    (h : List.Forall₂ (fun item v => decode (.ofValue v) = .ok item) items values) :
    Decode.list decode (.ofValue (.array values)) = .ok items := by
  have hmap : (Doc.ofItems values).mapM decode = .ok items := by
    induction h with
    | nil => rfl
    | cons hitem hrest ih =>
        rw [Doc.ofItems, List.mapM_cons, hitem, ih]
        rfl
  simp only [Doc.ofValue, Decode.list, hmap]
  rfl

theorem Decode.nat_ofNat {n : Nat} (h : n < 2 ^ 64) :
    Decode.nat (.ofValue (.ofNat n)) = .ok n := by
  simp only [Value.ofNat, Doc.ofValue, Decode.nat, Numeral.toNat?_ofInt h]

theorem Decode.option_ofOption {n? : Option Nat} (h : ∀ n ∈ n?, n < 2 ^ 64) :
    Decode.option Decode.nat (.ofValue (.ofOption .ofNat n?)) = .ok n? := by
  cases n? with
  | none => rfl
  | some n =>
      have hnat := Decode.nat_ofNat (h n rfl)
      simp only [Value.ofNat, Doc.ofValue] at hnat
      simp only [Value.ofOption, Value.ofNat, Doc.ofValue, Decode.option, hnat]
      rfl

/-- A field that belongs to no record is stepped over without a fault. -/
theorem IsOther.skip (h : IsOther used field) : Decode.skip (.ofValue field.2) = .ok () := by
  obtain ⟨key, v⟩ := field
  obtain ⟨s, rfl⟩ | ⟨b, rfl⟩ := h.value
  · rfl
  · rfl

/-- Nor is there a fault when it is kept. -/
theorem IsOther.inspect (h : IsOther used field) (depth : Nat) :
    Decode.inspect depth (.ofValue field.2) = .ok () := by
  obtain ⟨key, v⟩ := field
  obtain ⟨s, rfl⟩ | ⟨b, rfl⟩ := h.value
  · rfl
  · rfl

/-- Whichever way the value of a field is written, it is read as the same. -/
def Slot.Decodes (slot : Slot) (decode : Decoder α) (a : α) : Prop :=
  ∀ v, slot.writes v → decode (.ofValue v) = .ok a

section Decodes

variable {key : String} {decode : Decoder α}

theorem Slot.decodes_required (h : decode (.ofValue v) = .ok a) :
    (Slot.required key v).Decodes decode a := by
  rintro w rfl
  exact h

theorem Slot.decodes_defaulted {isDefault : Prop} (h : decode (.ofValue v) = .ok a) :
    (Slot.defaulted key isDefault v).Decodes decode a := by
  rintro w rfl
  exact h

theorem Slot.decodes_list {written : α → Value → Prop} {items : List α}
    (h : ∀ item ∈ items, ∀ v, written item v → decode (.ofValue v) = .ok item) :
    (Slot.list key written items).Decodes (Decode.list decode) items := by
  rintro v ⟨values, rfl, hwritten⟩
  apply Decode.list_of_forall₂
  rw [List.forall₂_iff_get] at hwritten ⊢
  exact ⟨hwritten.1, fun i hi hi' => h _ (List.getElem_mem hi) _ (hwritten.2 i hi hi')⟩

end Decodes

/-! ## Drafts -/

/-- The value of a field, once it has been read. -/
def entry (read : List (String × Value)) (key : String) (a : α) : Option α :=
  if key ∈ read.map (·.1) then some a else none

section Entries

variable {read : List (String × Value)} {key : String}

theorem entry_cons (other : String) (v : Value) (a : α) :
    entry ((other, v) :: read) key a = if key = other then some a else entry read key a := by
  simp only [entry, List.map_cons, List.mem_cons]
  by_cases h : key = other
  · simp only [h, true_or, if_true]
  · simp only [h, false_or, if_false]

/-- A field that belongs to no record enters nothing. -/
theorem entry_cons_other (h : IsOther used field) (hkey : key ∈ used) (a : α) :
    entry (field :: read) key a = entry read key a := by
  have hne : key ≠ field.1 := fun heq => h.key (heq ▸ hkey)
  rw [entry_cons, if_neg hne]

/-- A field that has not been read can be entered. -/
theorem once_entry {decode : Decoder α} (h : ∀ field ∈ read, field.1 ≠ key)
    (hdecode : decode doc = .ok a) :
    Decode.once decode (entry read key a) doc = .ok (some a) := by
  have hkey : key ∉ read.map (·.1) := by
    rw [List.mem_map]
    rintro ⟨field, hfield, hsame⟩
    exact h field hfield hsame
  rw [entry, if_neg hkey, Decode.once, hdecode]
  rfl

/-- A field that must be given has been entered. -/
theorem required_entry (h : False ∨ key ∈ read.map (·.1)) (a : α) :
    Decode.required (entry read key a) = .ok a := by
  rw [entry, if_pos (h.resolve_left id)]
  rfl

/-- A field that has not been entered has its default. -/
theorem getD_entry {a default : α} (h : a = default ∨ key ∈ read.map (·.1)) :
    (entry read key a).getD default = a := by
  by_cases hkey : key ∈ read.map (·.1)
  · rw [entry, if_pos hkey]
    rfl
  · rw [entry, if_neg hkey]
    exact (h.resolve_right hkey).symm

end Entries

/-! ## Reading records -/

section Reading

variable {a : α} {put : σ → String → Doc → Except Fault σ} {finish : σ → Except Fault α}
  {draft : List (String × Value) → σ}

/-- A field of a record is entered, when nothing has been entered for it. Here `draft read` is what
the reader holds after the fields `read`, the last first. -/
def Enters (put : σ → String → Doc → Except Fault σ) (draft : List (String × Value) → σ)
    (slot : Slot) : Prop :=
  ∀ v, slot.writes v → ∀ read, (∀ field ∈ read, field.1 ≠ slot.key) →
    put (draft read) slot.key (.ofValue v) = .ok (draft ((slot.key, v) :: read))

/-- A field that is read once, into an entry of its own. -/
theorem Enters.once {slot : Slot} {value : β} (decode : Decoder β) (set : σ → Option β → σ)
    (hdecode : slot.Decodes decode value)
    (hput : ∀ read doc, put (draft read) slot.key doc =
      Decode.once decode (entry read slot.key value) doc >>= fun entered =>
        pure (set (draft read) entered))
    (hset : ∀ read v, set (draft read) (some value) = draft ((slot.key, v) :: read)) :
    Enters put draft slot := by
  intro v hv read hfresh
  rw [hput, once_entry hfresh (hdecode v hv), ← hset read v]
  rfl

/-- A field that belongs to no record is passed over by a reader that steps over it. -/
theorem passes_of_skip
    (hput : ∀ draft key doc, key ∉ used →
      put draft key doc = Decode.skip doc >>= fun _ => pure draft)
    (hdraft : ∀ field, IsOther used field → ∀ read, draft (field :: read) = draft read)
    (field : String × Value) (h : IsOther used field) (read : List (String × Value)) :
    put (draft read) field.1 (.ofValue field.2) = .ok (draft (field :: read)) := by
  rw [hput _ _ _ h.key, h.skip, hdraft field h]
  rfl

/-- What a reader of a record does, whatever fields it has met. -/
structure Reads (used : List String) (slots : List Slot) (a : α)
    (put : σ → String → Doc → Except Fault σ) (finish : σ → Except Fault α)
    (draft : List (String × Value) → σ) : Prop where
  table : IsTable used slots
  /-- The fields of the record are entered. -/
  enters : ∀ slot ∈ slots, Enters put draft slot
  /-- Any other field is passed over. -/
  passes : ∀ field, IsOther used field → ∀ read,
    put (draft read) field.1 (.ofValue field.2) = .ok (draft (field :: read))
  /-- The fields of the record are enough to make it. -/
  finish : ∀ read, Lists used slots read → finish (draft read) = .ok a

namespace Reads

/-- One field: whatever it is, the reader holds what it should after it. -/
theorem step (h : Reads used slots a put finish draft) {read : List (String × Value)}
    (hlists : Lists used slots (read.reverse ++ field :: rest)) :
    put (draft read) field.1 (.ofValue field.2) = .ok (draft (field :: read)) := by
  cases hlists.fits (List.mem_append_right _ List.mem_cons_self) with
  | slot hslot hwrites =>
      have hfresh := hlists.fresh h.table hslot
      exact h.enters _ hslot _ hwrites read fun other hother =>
        hfresh other (List.mem_reverse.mpr hother)
  | other hother => exact h.passes field hother read

/-- All the fields that are left, after those that have been read. -/
theorem run (h : Reads used slots a put finish draft) (read : List (String × Value))
    (hlists : Lists used slots (read.reverse ++ fields)) :
    Decode.fields put (draft read) (Doc.ofFields fields) =
      .ok (draft (fields.reverse ++ read)) := by
  -- what has been read and what is left list the record together, at every step
  induction fields generalizing read with
  | nil => rfl
  | cons field fields ih =>
      have hput := h.step hlists
      have hrest := ih (field :: read) (by simpa using hlists)
      rw [List.reverse_cons, List.append_assoc, List.singleton_append, ← hrest]
      calc Decode.fields put (draft read) (Doc.ofFields (field :: fields))
        _ = put (draft read) field.1 (.ofValue field.2) >>=
              fun next => Decode.fields put next (Doc.ofFields fields) := rfl
        _ = Decode.fields put (draft (field :: read)) (Doc.ofFields fields) := by rw [hput]; rfl

/-- An object that writes a record is read as the record. -/
theorem object (h : Reads used slots a put finish draft) (hlists : Lists used slots fields) :
    Decode.object put (draft []) finish (.ofValue (.object fields)) = .ok a := by
  have hfields := h.run [] hlists
  have hfinish := h.finish fields.reverse (hlists.perm (List.reverse_perm fields))
  rw [List.append_nil] at hfields
  simp only [Doc.ofValue, Decode.object, hfields, ← hfinish]
  rfl

end Reads

end Reading

end ClassLayout.Json
