import Pipeline.Cron.Schedule
import Pipeline.Proofs.Cron.Gaps

/-!
# Readers do not see a gap at the end

* `Cron.Agree`: two readings are the same, but for a gap at the end of what they leave.
* `Cron.Steady`: a reader agrees with itself on lists that are the same but for a gap at the end.
* `Cron.steady_item?`: the readers of items, and all that they are made of, do so.
* `Cron.moreItems_agree`: so does a list of items, however many turns it is given.
* `Cron.Schedule.ofTokens_eq_of_trails`: so such lists stand for the same schedule, or for none.
-/

namespace Pipeline

namespace Cron

variable {α β γ : Type} {n : Nat} {ts ts' : List Token}

/-! ## Readings that agree -/

/-- Two readings are the same, but for a gap at the end of what they leave, and leave `n` cron words
at the most. -/
def Agree (n : Nat) (x y : Option (α × List Token)) : Prop :=
  Option.Rel (fun a b => a.1 = b.1 ∧ Trails a.2 b.2 ∧ a.2.length ≤ n) x y

/-- A reader does not see a gap at the end, and it leaves no more than it was given. -/
def Steady (read : List Token → Option (α × List Token)) : Prop :=
  ∀ ⦃ts ts' : List Token⦄, Trails ts ts' → Agree ts.length (read ts) (read ts')

theorem rel_bind {δ : Type} {R : α → β → Prop} {S : γ → δ → Prop} {x : Option α} {y : Option β}
    {f : α → Option γ} {g : β → Option δ} (h : Option.Rel R x y)
    (hfg : ∀ a b, R a b → Option.Rel S (f a) (g b)) : Option.Rel S (x.bind f) (y.bind g) := by
  cases h with
  | some h => exact hfg _ _ h
  | none => exact .none

namespace Agree

variable {x x' y y' : Option (α × List Token)}

theorem mono {m : Nat} (h : Agree n x y) (hle : n ≤ m) : Agree m x y := by
  cases h with
  | some h => exact .some ⟨h.1, h.2.1, Nat.le_trans h.2.2 hle⟩
  | none => exact .none

theorem map (f : α → β) (h : Agree n x y) :
    Agree n (x.map fun a => (f a.1, a.2)) (y.map fun a => (f a.1, a.2)) := by
  cases h with
  | some h => exact .some ⟨congrArg f h.1, h.2⟩
  | none => exact .none

theorem or (h : Agree n x y) (h' : Agree n x' y') : Agree n (x.or x') (y.or y') := by
  cases h with
  | some h => exact .some h
  | none => exact h'

end Agree

/-! ## Gaps and signs -/

theorem Trails.skipGap (h : Trails ts ts') : Trails (skipGap ts) (skipGap ts') := by
  cases h with
  | nil | gap => exact .nil
  | @cons t r r' h ht =>
    cases t with
    | gap => exact h
    | _ => exact .cons h ht

theorem Trails.length_le (h : Trails ts ts') : ts.length ≤ ts'.length := by
  induction h with
  | nil => exact Nat.le_refl 0
  | gap => exact Nat.zero_le 1
  | cons _ _ ih => exact Nat.succ_le_succ ih

/-- Where gaps are passed over, the one at the end is gone as soon as nothing else is left. -/
theorem Trails.isEmpty_skipGap (h : Trails ts ts') :
    (Cron.skipGap ts).isEmpty = (Cron.skipGap ts').isEmpty := by
  cases h with
  | nil | gap => rfl
  | @cons t r r' h ht =>
    cases t with
    | gap =>
      cases h with
      | nil => rfl
      | gap => exact absurd rfl (ht rfl)
      | cons => rfl
    | _ => rfl

theorem length_skipGap_le (ts : List Token) : (skipGap ts).length ≤ ts.length := by
  unfold skipGap
  split
  · exact Nat.le_succ _
  · exact Nat.le_refl _

/-- Passes a sign of which something holds. -/
def passSign (p : Char → Prop) [DecidablePred p] : List Token → Option (List Token)
  | .sign c :: rest => if p c then some rest else none
  | _ => none

theorem rel_passSign (p : Char → Prop) [DecidablePred p] (h : Trails ts ts') :
    Option.Rel (fun r r' => Trails r r' ∧ r.length < ts.length) (passSign p ts)
      (passSign p ts') := by
  cases h with
  | nil | gap => exact .none
  | @cons t r r' h _ =>
    cases t with
    | sign c =>
      by_cases hc : p c
      · simp only [passSign, if_pos hc]
        exact .some ⟨h, Nat.lt_succ_self _⟩
      · simp only [passSign, if_neg hc]
        exact .none
    | _ => exact .none

theorem rel_sign? (h : Trails ts ts') (c : Char) :
    Option.Rel (fun r r' => Trails r r' ∧ r.length < ts.length) (sign? c ts) (sign? c ts') :=
  rel_passSign (c = ·) h

theorem agree_all? (any : Bool) (h : Trails ts ts') :
    Agree ts.length ((all? any ts).map (Choice.all, ·)) ((all? any ts').map (Choice.all, ·)) := by
  have hrel : Option.Rel _ (all? any ts) (all? any ts') :=
    rel_passSign (fun c => c = '*' ∨ (any ∧ c = '?')) h
  generalize all? any ts = x at hrel
  generalize all? any ts' = y at hrel
  cases hrel with
  | some hr => exact .some ⟨rfl, hr.1, Nat.le_of_lt hr.2⟩
  | none => exact .none

/-! ## Numbers, names and pairs of them -/

/-- Reads a cron word that has a value, with gaps around it. -/
def readWord (value? : Token → Option α) (ts : List Token) : Option (α × List Token) :=
  match skipGap ts with
  | t :: rest => (value? t).map (·, skipGap rest)
  | [] => none

theorem steady_readWord {value? : Token → Option α} (hgap : value? .gap = none) :
    Steady (readWord value?) := by
  intro ts ts' h
  have hl := length_skipGap_le ts
  have hs := h.skipGap
  unfold readWord
  generalize skipGap ts = r at hl hs
  generalize skipGap ts' = r' at hs
  cases hs with
  | nil => exact .none
  | gap =>
    simp only [hgap]
    exact .none
  | @cons t r r' h _ =>
    have hr : (skipGap r).length ≤ ts.length :=
      Nat.le_trans (length_skipGap_le r) (Nat.le_of_succ_le hl)
    cases hv : value? t with
    | some a =>
      simp only [hv]
      exact .some ⟨rfl, h.skipGap, hr⟩
    | none =>
      simp only [hv]
      exact .none

/-- The value of a number that is not too large. -/
def numberOf? : Token → Option Nat
  | .number n => if n < numberLimit then some n else none
  | _ => none

/-- The letters of a name. -/
def lettersOf? : Token → Option (List Char)
  | .name letters => some letters
  | _ => none

theorem number?_eq_readWord : number? = readWord numberOf? := by
  funext ts
  unfold number? readWord
  cases skipGap ts with
  | nil => rfl
  | cons t rest =>
    cases t with
    | number n => by_cases hn : n < numberLimit <;> simp [numberOf?, hn]
    | _ => rfl

theorem name?_eq_readWord : name? = readWord lettersOf? := by
  funext ts
  unfold name? readWord
  cases skipGap ts with
  | nil => rfl
  | cons t rest => cases t <;> rfl

theorem steady_number? : Steady number? := number?_eq_readWord ▸ steady_readWord rfl

theorem steady_name? : Steady name? := name?_eq_readWord ▸ steady_readWord rfl

/-- Two readers with a sign between them make up a reader of this kind. -/
theorem Steady.separated {readA : List Token → Option (α × List Token)}
    {readB : List Token → Option (β × List Token)} (hA : Steady readA) (hB : Steady readB)
    (c : Char) (f : α → β → γ) :
    Steady fun ts => (readA ts).bind fun a => (sign? c a.2).bind fun ts => (readB ts).bind fun b =>
      some (f a.1 b.1, b.2) := by
  intro ts ts' h
  refine rel_bind (hA h) ?_
  rintro ⟨a, r⟩ ⟨_, r'⟩ ⟨rfl, hr, hlr⟩
  refine rel_bind (rel_sign? hr c) ?_
  rintro s s' ⟨hs, hls⟩
  refine rel_bind (hB hs) ?_
  rintro ⟨b, u⟩ ⟨_, u'⟩ ⟨rfl, hu, hlu⟩
  exact .some ⟨rfl, hu, Nat.le_trans hlu (Nat.le_trans (Nat.le_of_lt hls) hlr)⟩

theorem Steady.pair {read : List Token → Option (α × List Token)} (hread : Steady read) :
    Steady (pair? read) :=
  hread.separated hread '-' Prod.mk

/-! ## Items -/

section Items

variable (any : Bool)

/-- The ways to read a set of values, in the order in which they are tried. -/
theorem choice?_eq (ts : List Token) :
    choice? any ts = ((all? any ts).map (.all, ·)).or
      (((pair? number? ts).map fun x => (.range x.1.1 x.1.2, x.2)).or
        (((number? ts).map fun x => (.point x.1, x.2)).or
          ((pair? name? ts).map fun x => (.named x.1.1 x.1.2, x.2)))) := by
  unfold choice?
  cases all? any ts <;> cases pair? number? ts <;> cases number? ts <;> cases pair? name? ts <;> rfl

/-- The ways to read an item, in the order in which they are tried. -/
theorem item?_eq (ts : List Token) :
    item? any ts = (steps? any ts).or
      (((choice? any ts).map fun x => (.choice x.1, x.2)).or
        ((name? ts).map fun x => (.name x.1, x.2))) := by
  unfold item?
  cases steps? any ts <;> cases choice? any ts <;> cases name? ts <;> rfl

theorem steady_choice? : Steady (choice? any) := by
  intro ts ts' h
  rw [choice?_eq, choice?_eq]
  have hrange := (steady_number?.pair h).map fun x => Choice.range x.1 x.2
  have hpoint := (steady_number? h).map Choice.point
  have hnames := (steady_name?.pair h).map fun x => Choice.named x.1 x.2
  exact (agree_all? any h).or (hrange.or (hpoint.or hnames))

theorem steady_steps? : Steady (steps? any) :=
  (steady_choice? any).separated steady_number? '/' Item.steps

theorem steady_item? : Steady (item? any) := by
  intro ts ts' h
  rw [item?_eq, item?_eq]
  have hchoice := (steady_choice? any h).map Item.choice
  exact (steady_steps? any h).or (hchoice.or ((steady_name? h).map Item.name))

/-! ## Lists of items -/

/-- A further item, behind a comma, leaves less than there was. -/
theorem agree_next (h : Trails ts ts') (hn : ts.length ≤ n + 1) :
    Agree n ((sign? ',' ts).bind (item? any)) ((sign? ',' ts').bind (item? any)) := by
  refine rel_bind (rel_sign? h ',') fun r r' ⟨hr, hlr⟩ => ?_
  exact (steady_item? any hr).mono (by omega)

/-- Further items are the same, however many turns more than needed there are to read them. -/
theorem moreItems_agree {n n' : Nat} (h : Trails ts ts') (hn : ts.length ≤ n) (hle : n ≤ n') :
    (moreItems any n ts).1 = (moreItems any n' ts').1 ∧
      Trails (moreItems any n ts).2 (moreItems any n' ts').2 := by
  -- Each turn leaves less, so the side with fewer turns has enough of them to the end.
  induction n generalizing n' ts ts' with
  | zero =>
    obtain rfl := List.eq_nil_of_length_eq_zero (Nat.le_zero.mp hn)
    have hnone : sign? ',' ts' = none := by cases h <;> rfl
    cases n' with
    | zero => exact ⟨rfl, h⟩
    | succ n' =>
      simp only [moreItems, hnone]
      exact ⟨rfl, h⟩
  | succ n ih =>
    obtain ⟨m, rfl⟩ : ∃ m, n' = m + 1 := ⟨n' - 1, by omega⟩
    have hnext := agree_next any h hn
    unfold moreItems
    generalize (sign? ',' ts).bind (item? any) = x at hnext
    generalize (sign? ',' ts').bind (item? any) = y at hnext
    cases hnext with
    | none => exact ⟨rfl, h⟩
    | @some a b hab =>
      obtain ⟨i, r⟩ := a
      obtain ⟨_, r'⟩ := b
      obtain ⟨rfl, hr, hlr⟩ := hab
      obtain ⟨hitems, hrest⟩ := ih hr hlr (Nat.le_of_succ_le_succ hle)
      exact ⟨congrArg (i :: ·) hitems, hrest⟩

/-- Lists of items are the same, and what they leave is the same but for a gap at the end, and
empty on both sides if it is so on one. -/
theorem rel_items? (h : Trails ts ts') :
    Option.Rel (fun a b => a.1 = b.1 ∧ Trails a.2 b.2 ∧ a.2.isEmpty = b.2.isEmpty) (items? any ts)
      (items? any ts') := by
  have hitem := steady_item? any h.skipGap
  unfold items?
  generalize item? any (skipGap ts) = x at hitem
  generalize item? any (skipGap ts') = y at hitem
  cases hitem with
  | none => exact .none
  | @some a b hab =>
    obtain ⟨i, r⟩ := a
    obtain ⟨_, r'⟩ := b
    obtain ⟨rfl, hr, -⟩ := hab
    obtain ⟨hitems, hrest⟩ := moreItems_agree any hr (Nat.le_refl _) hr.length_le
    exact .some ⟨congrArg (i :: ·) hitems, hrest.skipGap, hrest.isEmpty_skipGap⟩

end Items

/-! ## Fields -/

/-- A field fails in the same way, or has the same values. -/
theorem Unit.field_cases (unit : Unit) (h : Trails ts ts') :
    (∃ e, unit.field ts = .error e ∧ unit.field ts' = .error e) ∨
      ∃ values r r', unit.field ts = .ok (values, r) ∧ unit.field ts' = .ok (values, r') ∧
        Trails r r' ∧ r.isEmpty = r'.isEmpty := by
  have hitems := rel_items? unit.allowsAny h
  unfold field
  generalize items? unit.allowsAny ts = x at hitems
  generalize items? unit.allowsAny ts' = y at hitems
  cases hitems with
  | none => exact .inl ⟨.malformed, rfl, rfl⟩
  | @some a b hab =>
    obtain ⟨items, r⟩ := a
    obtain ⟨_, r'⟩ := b
    obtain ⟨rfl, hr, he⟩ := hab
    dsimp only
    cases unit.values items with
    | error e => exact .inl ⟨e, rfl, rfl⟩
    | ok values => exact .inr ⟨values, r, r', rfl, rfl, hr, he⟩

/-- What is made of a field is the same if it is the same for all values and rests of it. -/
theorem Unit.bind_field {unit : Unit} {f : List Nat × List Token → Except Error β}
    (h : Trails ts ts')
    (hf : ∀ values r r', Trails r r' → r.isEmpty = r'.isEmpty → f (values, r) = f (values, r')) :
    (unit.field ts >>= f) = (unit.field ts' >>= f) := by
  obtain ⟨e, he, he'⟩ | ⟨values, r, r', hv, hv', hr, hempty⟩ := unit.field_cases h
  · rw [he, he']
  · rw [hv, hv']
    exact hf values r r' hr hempty

namespace Schedule

theorem yearsField_eq (h : Trails ts ts') (hempty : ts.isEmpty = ts'.isEmpty) :
    yearsField ts = yearsField ts' := by
  obtain ⟨e, he, he'⟩ | ⟨values, r, r', hv, hv', hr, hr'⟩ := Unit.year.field_cases h
  · simp only [yearsField, he, he', hempty]
  · simp only [yearsField, hv, hv']
    cases hr with
    | gap => cases hr'
    | nil | cons => rfl

theorem ofFields_eq (h : Trails ts ts') : ofFields ts = ofFields ts' := by
  refine Unit.bind_field h fun seconds _ _ h _ => ?_
  refine Unit.bind_field h fun minutes _ _ h _ => ?_
  refine Unit.bind_field h fun hours _ _ h _ => ?_
  refine Unit.bind_field h fun daysOfMonth _ _ h _ => ?_
  refine Unit.bind_field h fun months _ _ h _ => ?_
  refine Unit.bind_field h fun daysOfWeek _ _ h hempty => ?_
  simp only [yearsField_eq h hempty]

theorem shorthand?_eq (h : Trails ts ts') : shorthand? ts = shorthand? ts' := by
  have hs := h.skipGap
  unfold shorthand?
  generalize skipGap ts = r at hs
  generalize skipGap ts' = r' at hs
  cases hs with
  | nil | gap => rfl
  | @cons t r r' h _ =>
    cases h with
    | nil => rfl
    | gap => cases t <;> simp
    | @cons u r r' h _ =>
      cases t with
      | sign c =>
        by_cases hc : c = '@'
        · subst hc
          cases u with
          | name letters => simp only [h.isEmpty_skipGap]
          | _ => rfl
        · simp [hc]
      | _ => rfl

theorem ofTokens_eq_of_trails (h : Trails ts ts') : ofTokens ts = ofTokens ts' := by
  rw [ofTokens, shorthand?_eq h, ofFields_eq h, ofTokens]

/-- A gap in front is passed over. -/
theorem ofTokens_skipGap (h : skipGap (skipGap ts) = skipGap ts) :
    ofTokens (skipGap ts) = ofTokens ts := by
  have hitems (any : Bool) : items? any (skipGap ts) = items? any ts := by simp only [items?, h]
  have hfield (unit : Unit) : unit.field (skipGap ts) = unit.field ts := by
    simp only [Unit.field, hitems]
  simp only [ofTokens, shorthand?, ofFields, hfield, h]

end Schedule

end Cron

end Pipeline
