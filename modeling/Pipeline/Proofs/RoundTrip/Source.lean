import Pipeline.Source

/-!
# Reading what was written

What the readers make of the JSON values that are written for texts, numbers, lists, records and
values of several kinds. None of it depends on whether scalars are settled: in JSON every scalar
says what it is.

* `Source.list?_map`, `Source.optional?_optional`: lists and values that may be missing.
* `Source.record?_obj`: a record with exactly the fields that are wanted gives each of them.
* `Source.members?_obj`: the fields that are wanted are taken, and the others are left.
* `Source.tagged?_obj`: the part that tells the kind is taken away.
* `Source.RoundTrips`: reading what was written gives the value back.
-/

namespace Pipeline

namespace Record

variable {α : Type} {r : Record} {name key : String} {s : Source} {read : Source → Option α}

/-- A field is looked up from the front. -/
theorem lookup_cons_ite :
    List.lookup name ((key, s) :: r) = if name = key then some s else List.lookup name r := by
  rw [List.lookup_cons]
  by_cases h : name = key
  · rw [if_pos h, beq_iff_eq.mpr h]
  · rw [if_neg h, beq_false_of_ne h]

@[simp] theorem required_cons :
    required ((key, s) :: r) name read = if name = key then read s else required r name read := by
  rw [required, lookup_cons_ite]
  split <;> rfl

@[simp] theorem withDefault_cons {a : α} :
    withDefault ((key, s) :: r) name a read =
      if name = key then read s else withDefault r name a read := by
  rw [withDefault, lookup_cons_ite]
  by_cases h : name = key
  · rw [if_pos h, if_pos h]
  · rw [if_neg h, if_neg h]
    rfl

end Record

namespace Source

variable {settled : Bool}

/-! ## Simple values -/

@[simp] theorem text?_str (s : String) : text? (.json settled (.str s)) = some s := rfl

@[simp] theorem flag?_bool (b : Bool) : flag? (.json settled (.bool b)) = some b := rfl

theorem natural?_nat {limit n : Nat} (h : n < limit) :
    natural? limit (.json settled (.nat n)) = some n :=
  if_pos h

@[simp] theorem word32?_nat (n : UInt32) :
    word32? (.json settled (.nat n.toNat)) = some n := by
  rw [word32?, natural?_nat n.toNat_lt_size, Option.map_some, UInt32.ofNat_toNat]

@[simp] theorem word64?_nat (n : UInt64) :
    word64? (.json settled (.nat n.toNat)) = some n := by
  rw [word64?, natural?_nat n.toNat_lt_size, Option.map_some, UInt64.ofNat_toNat]

section

variable {α : Type} {encode : α → Json} {read : Source → Option α}

/-- A value that may be missing is told from a missing one if it is never written as null. -/
theorem optional?_optional (h : ∀ a, read (.json settled (encode a)) = some a)
    (hn : ∀ a, encode a ≠ .null) (o : Option α) :
    optional? read (.json settled (.optional encode o)) = some o := by
  cases o with
  | none => rfl
  | some a =>
    have hm : isMissing? (.json settled (encode a)) = some false := by
      have := hn a
      cases he : encode a <;> simp_all [isMissing?]
    simp only [Json.optional, optional?, hm, h, Option.map_some]

@[simp] theorem optional?_text (o : Option String) :
    optional? text? (.json settled (.optionalText o)) = some o :=
  optional?_optional text?_str (fun _ => Json.noConfusion) o

@[simp] theorem optional?_word32 (o : Option UInt32) :
    optional? word32? (.json settled (.optional (fun n => .nat n.toNat) o)) = some o :=
  optional?_optional word32?_nat (fun _ => Json.noConfusion) o

/-- Entries are read back one by one. -/
theorem mapM_map_read {write : α → Source} {as : List α} (h : ∀ a ∈ as, read (write a) = some a) :
    (as.map write).mapM read = some as := by
  rw [List.mapM_map]
  induction as with
  | nil => rfl
  | cons a as ih =>
    obtain ⟨ha, has⟩ := List.forall_mem_cons.mp h
    have ha' : (read ∘ write) a = some a := ha
    rw [List.mapM_cons, ha', ih has]
    rfl

/-- A list is read back if its entries are. -/
@[simp] theorem list?_map {as : List α} (h : ∀ a ∈ as, read (.json settled (encode a)) = some a) :
    list? read (.json settled (.arr (as.map encode))) = some as := by
  rw [list?, items?, Option.bind_some, List.map_map]
  exact mapM_map_read h

@[simp] theorem texts?_texts (ss : List String) :
    texts? (.json settled (.texts ss)) = some ss :=
  list?_map fun s _ => text?_str s

end

/-! ## Records -/

section

variable {names : List String} {fields others : List (String × Json)}

/-- The fields of a JSON object as parts to read. -/
def parts (settled : Bool) (fields : List (String × Json)) : Record :=
  fields.map fun f => (f.1, .json settled f.2)

@[simp] theorem parts_nil : parts settled [] = [] := rfl

@[simp] theorem parts_cons {name : String} {v : Json} :
    parts settled ((name, v) :: fields) = (name, .json settled v) :: parts settled fields := rfl

/-- Of parts with the wanted names and parts with other names, the former are taken. -/
theorem known?_parts_append (hf : fields.map Prod.fst = names) (hn : names.Nodup)
    (ho : ∀ f ∈ others, f.1 ∉ names) :
    Record.known? names (parts settled (fields ++ others)) = some (parts settled fields) := by
  have hown : (parts settled fields).filter (fun f => names.contains f.1) =
      parts settled fields := by
    refine List.filter_eq_self.mpr fun f hp => ?_
    obtain ⟨g, hg, rfl⟩ := List.mem_map.mp hp
    exact List.contains_iff_mem.mpr (hf ▸ List.mem_map_of_mem hg)
  have hrest : (parts settled others).filter (fun f => names.contains f.1) = [] := by
    refine List.filter_eq_nil_iff.mpr fun f hp => ?_
    obtain ⟨g, hg, rfl⟩ := List.mem_map.mp hp
    exact fun hc => ho g hg (List.contains_iff_mem.mp hc)
  have hnames : (parts settled fields).map Prod.fst = names := by
    rw [← hf, parts, List.map_map]
    rfl
  have hparts : parts settled (fields ++ others) = parts settled fields ++ parts settled others :=
    List.map_append
  simp only [Record.known?, hparts, List.filter_append, hown, hrest, List.append_nil, hnames,
    if_pos hn]

/-- A value that was read is passed on. In this form nothing is done to the readers of the other
fields before the value is known, as it is to what stands in an `Option.bind`. -/
theorem some_bind {α β : Type} (a : α) (f : α → Option β) : (some a >>= f) = f a := rfl

/-- A record of exactly the wanted fields gives each of them. -/
theorem record?_obj (hf : fields.map Prod.fst = names) (hn : names.Nodup) :
    record? names (.json settled (.obj fields)) = some (parts settled fields) := by
  have hknown : Record.known? names (parts settled (fields ++ [])) =
      some (parts settled fields) :=
    known?_parts_append hf hn fun f h => absurd h List.not_mem_nil
  rwa [List.append_nil] at hknown

variable (fields) in
/-- The wanted fields are taken, and the others are left for another record. -/
theorem members?_obj (hf : fields.map Prod.fst = names) (hn : names.Nodup)
    (ho : ∀ f ∈ others, f.1 ∉ names) :
    members? names (.json settled (.obj (fields ++ others))) =
      some (parts settled fields, .json true (.obj others)) := by
  have hown : fields.filter (fun f => !names.contains f.1) = [] := by
    refine List.filter_eq_nil_iff.mpr fun f hm => ?_
    rw [List.contains_iff_mem.mpr (hf ▸ List.mem_map_of_mem hm)]
    decide
  have hrest : others.filter (fun f => !names.contains f.1) = others := by
    refine List.filter_eq_self.mpr fun f hm => ?_
    rw [Bool.not_eq_true', Bool.eq_false_iff, Ne, List.contains_iff_mem]
    exact ho f hm
  have hknown : (namedParts? [] (.json settled (.obj (fields ++ others)))).bind
      (Record.known? names) = some (parts settled fields) :=
    known?_parts_append hf hn ho
  simp only [members?.eq_def, hknown, List.filter_append, hown, hrest, List.nil_append]

end

/-! ## Kinds -/

section

variable {fields : List (String × Json)} {kind : String}

/-- The part that tells the kind is taken away, and the other fields are left. -/
theorem tagged?_obj (h : ∀ f ∈ fields, f.1 ≠ kindKey) :
    tagged? (.json settled (.obj ((kindKey, .str kind) :: fields))) =
      some (.name kind, .json true (.obj fields)) := by
  have hkind : fields.filter (fun f => f.1 == kindKey) = [] :=
    List.filter_eq_nil_iff.mpr fun f hf => by simpa using h f hf
  have hrest : fields.filter (fun f => f.1 != kindKey) = fields :=
    List.filter_eq_self.mpr fun f hf => by simpa using h f hf
  have hlabel : label? (.json settled (.str kind)) = some (.name kind) := by
    cases settled <;> rfl
  simp [tagged?, hkind, hrest, hlabel]

/-- A value of several kinds is read by the reader of the kind that is written with it. -/
theorem read_kind {α : Type} {readers : List (String × (Source → Option α))}
    {read : Source → Option α} {a : α} (h : ∀ f ∈ fields, f.1 ≠ kindKey)
    (hr : readers.lookup kind = some read) (ha : read (.json true (.obj fields)) = some a) :
    ((tagged? (.json settled (.obj ((kindKey, .str kind) :: fields)))).bind fun (label, body) =>
      (label.pick? readers).bind fun read => read body) = some a := by
  have hpick : (Label.name kind).pick? readers = some read := hr
  rw [tagged?_obj h, Option.bind_some]
  simp only [hpick, Option.bind_some, ha]

/-- One of several names is read as the option of that name. -/
theorem oneOf?_str {α : Type} {options : List (String × α)} {name : String} {a : α}
    (h : options.lookup name = some a) : oneOf? options (.json settled (.str name)) = some a :=
  h

end

/-! ## Values -/

/-- Reading what is written for a value gives the value. So whatever a value was read from, what
is then written for it is read as the same value again. -/
structure RoundTrips {α : Type} (encode : α → Json) (decode? : Source → Option α) : Prop where
  decode_encode : ∀ a settled, decode? (.json settled (encode a)) = some a
  rewritten : ∀ v w settled, (decode? (.json settled v)).map encode = some w →
    decode? (.json settled w) = decode? (.json settled v)

theorem RoundTrips.of_decode_encode {α : Type} {encode : α → Json} {decode? : Source → Option α}
    (h : ∀ a settled, decode? (.json settled (encode a)) = some a) :
    RoundTrips encode decode? where
  decode_encode := h
  rewritten v w settled hw := by
    obtain ⟨a, ha, rfl⟩ := Option.map_eq_some_iff.mp hw
    rw [h, ha]

end Source

end Pipeline
