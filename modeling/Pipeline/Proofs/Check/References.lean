import Pipeline.Proofs.Check.MessagesAt
import Pipeline.Proofs.Check.Passing

/-!
# What is said of references

A job refers to other jobs by its dependencies and by the actions that run a job. Such a name is
looked at twice: the job itself says whether it is blank, and the specification whether there is such a
job (`Spec.checkReference`).

* `Job.RefersAt`: the places at which a job refers to another one, with the name that it gives.
* `Spec.mem_messagesAt_checkReference_iff`: what is said of one reference.
* `Spec.mem_messagesAt_checkReferences_iff`: what is said of the references of a job, and where.
-/

namespace Pipeline

open Check

/-- A job gives the name of a job at a place. -/
inductive Job.RefersAt (j : Job) : FieldPath → String → Prop where
  | dependency {k : Nat} {d : JobDependency} (h : j.jobDependencies[k]? = some d) :
    j.RefersAt [.field "job_dependencies", .index k, .field "job_name"] d.jobName
  | action {k : Nat} {a : Action} {target : String} (h : j.postBuildActions[k]? = some a)
      (ht : a.runJobName? = some target) :
    j.RefersAt [.field "post_build_actions", .index k, .field "job_name"] target

/-- A place gives one name. -/
theorem Job.RefersAt.unique {j : Job} {p q : FieldPath} {target target' : String}
    (h : j.RefersAt p target) (h' : j.RefersAt q target') (hq : p = q) : target = target' := by
  cases h with
  | dependency h =>
    cases h' with
    | dependency h' =>
      obtain rfl := PathSegment.index.inj (List.cons.inj (List.cons.inj hq).2).1
      rw [Option.some.inj (h.symm.trans h')]
    | action h' ht' => simp at hq
  | action h ht =>
    cases h' with
    | dependency h' => simp at hq
    | action h' ht' =>
      obtain rfl := PathSegment.index.inj (List.cons.inj (List.cons.inj hq).2).1
      rw [Option.some.inj (h.symm.trans h')] at ht
      exact Option.some.inj (ht.symm.trans ht')

namespace Spec

variable {known : List String} {owner target said : String} {p : FieldPath}

/-- What is said of a job that refers to itself. -/
def selfReferenceMessage : String := "A job may not reference itself"

theorem head?_notFoundMessage (name : String) : (notFoundMessage name).toList.head? = some 'J' :=
  Text.head?_append rfl

theorem elementary_checkReference : (checkReference known owner target).Elementary := by
  unfold checkReference
  split
  · exact elementary_pass
  · split
    · exact elementary_fail _
    · exact elementary_require _ _

/-- A blank name is let pass. Of another one it is said that it is that of the job itself, or that no
job has it. -/
theorem mem_messagesAt_checkReference_iff :
    said ∈ (checkReference known owner target).messagesAt [] ↔ Text.NonBlank target ∧
      (target = owner ∧ said = selfReferenceMessage ∨
        target ≠ owner ∧ target ∉ known ∧ said = notFoundMessage target) := by
  rw [checkReference, ← Text.isBlank_eq_false_iff]
  cases Text.isBlank target with
  | true => simp
  | false =>
    by_cases ho : target = owner
    · simp [ho, selfReferenceMessage]
    · by_cases hk : target ∈ known <;> simp [ho, hk, require]

theorem mem_messagesAt_checkReferences_iff {j : Job} :
    said ∈ (checkReferences known j).messagesAt p ↔ ∃ target, j.RefersAt p target ∧
      said ∈ (checkReference known j.name target).messagesAt [] := by
  simp only [checkReferences, messagesAt_all_cons, messagesAt_all_nil, List.append_nil,
    List.mem_append, mem_messagesAt_field_iff, mem_messagesAt_each_iff]
  constructor
  · rintro (⟨_, rfl, k, d, _, rfl, hd, _, rfl, hs⟩ | ⟨_, rfl, k, a, _, rfl, ha, _, rfl, hs⟩)
    · obtain ⟨rfl, hs⟩ := elementary_checkReference.mem_messagesAt_iff.mp hs
      exact ⟨_, .dependency hd, hs⟩
    · rw [messagesAt_optional] at hs
      cases ht : a.runJobName? with
      | none => simp [ht] at hs
      | some target =>
        rw [ht] at hs
        obtain ⟨rfl, hs⟩ := elementary_checkReference.mem_messagesAt_iff.mp hs
        exact ⟨_, .action ha ht, hs⟩
  · rintro ⟨target, hr, hs⟩
    cases hr with
    | dependency hd => exact .inl ⟨_, rfl, _, _, _, rfl, hd, _, rfl, hs⟩
    | action ha ht =>
      refine .inr ⟨_, rfl, _, _, _, rfl, ha, _, rfl, ?_⟩
      rwa [messagesAt_optional, ht]

/-- What is said of references begins otherwise than what is said of anything else in these places. -/
theorem head?_mem_of_mem_messagesAt_checkReferences {j : Job}
    (hs : said ∈ (checkReferences known j).messagesAt p) :
    said.toList.head? ∈ [some 'A', some 'J'] := by
  obtain ⟨target, -, hs⟩ := mem_messagesAt_checkReferences_iff.mp hs
  obtain ⟨-, ⟨-, rfl⟩ | ⟨-, -, rfl⟩⟩ := mem_messagesAt_checkReference_iff.mp hs
  · decide
  · rw [head?_notFoundMessage]
    decide

end Spec

end Pipeline
