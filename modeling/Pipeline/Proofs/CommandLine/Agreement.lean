import Pipeline.CommandLine.Run
import Pipeline.Proofs.CommandLine.Display
import Pipeline.Proofs.WellFormed.Graph

/-!
# The commands agree on what is acceptable

* `Workspace.onValidSpec_of_accepted`, `Workspace.onValidSpec_of_refused`: what the commands have in
  common that go on only with an acceptable specification.
* `Workspace.succeeds_onValidSpec_iff`: such a command succeeds if the specification is acceptable
  and what it goes on with succeeds.
* `Spec.exists_order`: the jobs of an acceptable specification can be ordered.
* `Command.agreement`: how the outcomes of all commands on one specification fit together.
-/

namespace Pipeline

/-! ## Texts -/

namespace Spec

/-- The text is that of the specification, and the specification is acceptable. -/
def IsAcceptedFrom (s : Spec) (text : String) : Prop :=
  ofYaml? text = some s ∧ s.validate.isValid = true

/-- A line for each problem of the specification of a text, if the text is that of one. -/
def problemLinesOf (text : String) : List String :=
  match ofYaml? text with
  | some s => s.validate.problemLines
  | none => []

variable {s : Spec}

/-- The jobs of an acceptable specification have a graph and an order, in which each of them stands
once. -/
theorem exists_order (h : s.validate.isValid = true) :
    ∃ g order, JobGraph.ofSpec s = .ok g ∧ g.order = .ok order ∧ order.Perm s.jobNames ∧
      order.Nodup := by
  obtain ⟨hv, g, hok⟩ := isValid_validate_iff.mp h
  obtain ⟨-, hr, hg, hc⟩ := JobGraph.of_ofSpec_ok hok
  obtain ⟨-, ho⟩ := (JobGraph.order_eq hg hr).resolve_left fun hcyc => hc hcyc.1
  have hp : (g.candidate.map g.nameOf).Perm s.jobNames := by
    have := (JobGraph.candidate_perm hg.bounded).map g.nameOf
    rwa [JobGraph.nodes_map_nameOf, hg.names] at this
  exact ⟨g, _, hok, ho, hp, hp.nodup_iff.mpr (passes_check_iff.mp hv).2.1⟩

end Spec

/-- The event is read from the text. -/
def Event.IsReadFrom (e : Event) (text : String) : Prop :=
  ((Json.ofText? text).bind fun v => decode? (.json false v)) = some e

/-! ## Outcomes -/

/-- A command has ended without a failure. -/
def Outcome.Succeeds (o : Outcome) : Prop := o.failure = none

namespace Workspace

variable {w : Workspace} {path text : String} {next : Spec → Outcome} {s : Spec}

@[simp] theorem succeeds_wrote {output : String} : (w.wrote output).Succeeds := rfl

@[simp] theorem succeeds_showed {d : Display} : (w.showed d).Succeeds := rfl

@[simp] theorem not_succeeds_failed {output : String} {e : Failure} :
    ¬ (w.failed output e).Succeeds :=
  Option.some_ne_none e

theorem succeeds_proceed_iff {α : Type} {r : Except Failure α} {f : α → Outcome} :
    (w.proceed r f).Succeeds ↔ ∃ a, r = .ok a ∧ (f a).Succeeds := by
  cases r <;> simp [proceed]

theorem spec_of_ofYaml? (h : w.read? path = some text) (hs : Spec.ofYaml? text = some s) :
    w.spec path = .ok s := by
  simp [spec, Workspace.text, h, hs]

theorem spec_of_malformed (h : w.read? path = some text) (hn : Spec.ofYaml? text = none) :
    w.spec path = .error .malformedSpec := by
  simp [spec, Workspace.text, h, hn]

theorem spec_eq_ok_iff (h : w.read? path = some text) :
    w.spec path = .ok s ↔ Spec.ofYaml? text = some s := by
  cases hs : Spec.ofYaml? text with
  | none => simp [spec_of_malformed h hs]
  | some s' => simp [spec_of_ofYaml? h hs]

theorem onValidSpec_of_accepted (h : w.read? path = some text) (hs : s.IsAcceptedFrom text) :
    w.onValidSpec path next = next s := by
  simp [onValidSpec, spec_of_ofYaml? h hs.1, proceed, hs.2]

/-- Of a specification that is not acceptable, nothing is shown but its problems. -/
theorem onValidSpec_of_refused (h : w.read? path = some text)
    (hn : ¬ ∃ s : Spec, s.IsAcceptedFrom text) :
    ∃ e, w.onValidSpec path next = w.failed (linesText (Spec.problemLinesOf text)) e := by
  cases hs : Spec.ofYaml? text with
  | none =>
    refine ⟨.malformedSpec, ?_⟩
    simp [onValidSpec, spec_of_malformed h hs, proceed, hs, Spec.problemLinesOf, linesText]
  | some s =>
    have hv : s.validate.isValid = false := Bool.eq_false_iff.mpr fun hv => hn ⟨s, hs, hv⟩
    refine ⟨.other (path ++ " is not a valid build spec"), ?_⟩
    simp [onValidSpec, spec_of_ofYaml? h hs, proceed, hv, hs, Spec.problemLinesOf]

theorem output_onValidSpec_of_refused (h : w.read? path = some text)
    (hn : ¬ ∃ s : Spec, s.IsAcceptedFrom text) :
    (w.onValidSpec path next).output = linesText (Spec.problemLinesOf text) := by
  obtain ⟨e, he⟩ := onValidSpec_of_refused h hn
  rw [he, failed]

/-- A command that goes on only with an acceptable specification succeeds if there is one and what
it goes on with succeeds. -/
theorem succeeds_onValidSpec_iff (h : w.read? path = some text) :
    (w.onValidSpec path next).Succeeds ↔
      ∃ s : Spec, s.IsAcceptedFrom text ∧ (next s).Succeeds := by
  by_cases ha : ∃ s : Spec, s.IsAcceptedFrom text
  · obtain ⟨s, hs⟩ := ha
    rw [onValidSpec_of_accepted h hs]
    constructor
    · exact fun hn => ⟨s, hs, hn⟩
    · rintro ⟨s', hs', hn⟩
      obtain rfl : s = s' := Option.some.inj (hs.1.symm.trans hs'.1)
      exact hn
  · obtain ⟨e, he⟩ := onValidSpec_of_refused h ha
    rw [he]
    exact ⟨fun hf => absurd hf not_succeeds_failed, fun ⟨s, hs, _⟩ => absurd ⟨s, hs⟩ ha⟩

theorem event_eq_ok_iff {e : Event} :
    w.event path = .ok e ↔ ∃ content, w.read? path = some content ∧ e.IsReadFrom content := by
  unfold event Workspace.text Event.IsReadFrom
  cases w.read? path with
  | none => simp
  | some content =>
    cases he : (Json.ofText? content).bind fun v => Event.decode? (.json false v) <;>
      simp [he]

end Workspace

theorem Spec.exists_retryDisplay?_iff {s : Spec} {job : String} :
    (∃ d, s.retryDisplay? job = some d) ↔ ∃ j, s.select? job = some j := by
  simp [retryDisplay?, retryDelays?]

/-! ## Commands -/

namespace Command

open Workspace

/-- The command, run in the workspace, ends without a failure. -/
def Succeeds (w : Workspace) (now : Instant) (c : Command) : Prop := (c.run w now).Succeeds

variable {w : Workspace} {now : Instant} {path : Option String} {text : String}

section

variable (h : w.read? (specPath w.settings path) = some text)

include h

theorem succeeds_validate_iff :
    Succeeds w now (.validate path) ↔ ∃ s : Spec, s.IsAcceptedFrom text := by
  refine succeeds_proceed_iff.trans (exists_congr fun s => ?_)
  rw [spec_eq_ok_iff h, Spec.IsAcceptedFrom]
  refine and_congr_right fun _ => ?_
  cases hv : s.validate.isValid <;> simp [hv]

theorem succeeds_schedule_iff :
    Succeeds w now (.schedule path) ↔ ∃ s : Spec, s.IsAcceptedFrom text := by
  refine (succeeds_onValidSpec_iff h).trans ?_
  simp

theorem succeeds_dispatch_iff {event : String} :
    Succeeds w now (.dispatch path event) ↔ (∃ s : Spec, s.IsAcceptedFrom text) ∧
      ∃ content e, w.read? event = some content ∧ Event.IsReadFrom e content := by
  refine (succeeds_onValidSpec_iff h).trans ?_
  simp only [succeeds_proceed_iff, event_eq_ok_iff, succeeds_showed, and_true]
  constructor
  · rintro ⟨s, hs, e, content, he⟩
    exact ⟨⟨s, hs⟩, content, e, he⟩
  · rintro ⟨⟨s, hs⟩, content, e, he⟩
    exact ⟨s, hs, e, content, he⟩

theorem succeeds_retries_iff {job : String} :
    Succeeds w now (.retries path job) ↔
      ∃ s : Spec, s.IsAcceptedFrom text ∧ ∃ j, s.select? job = some j := by
  refine (succeeds_onValidSpec_iff h).trans (exists_congr fun s => and_congr_right fun _ => ?_)
  rw [← Spec.exists_retryDisplay?_iff]
  cases s.retryDisplay? job <;> simp

/-- The jobs of an acceptable specification are shown in order. -/
theorem run_plan_of_accepted {s : Spec} (hs : s.IsAcceptedFrom text) :
    ∃ g order, JobGraph.ofSpec s = .ok g ∧ g.order = .ok order ∧ order.Perm s.jobNames ∧
      order.Nodup ∧ run w now (.plan path) = w.showed (g.display order) := by
  obtain ⟨g, order, hg, ho, hp, hn⟩ := Spec.exists_order hs.2
  refine ⟨g, order, hg, ho, hp, hn, ?_⟩
  have hrun : run w now (.plan path) = w.proceed
      ((do
        let g ← JobGraph.ofSpec s
        let order ← g.order
        return g.display order : Except GraphError Display).mapError
          fun e => Failure.other e.message) w.showed := onValidSpec_of_accepted h hs
  rw [hrun, hg]
  simp [ho, bind, Except.bind, pure, Except.pure, Except.mapError, proceed]

theorem succeeds_plan_iff :
    Succeeds w now (.plan path) ↔ ∃ s : Spec, s.IsAcceptedFrom text := by
  constructor
  · intro hp
    obtain ⟨s, hs, -⟩ := (succeeds_onValidSpec_iff h).mp hp
    exact ⟨s, hs⟩
  · rintro ⟨s, hs⟩
    obtain ⟨g, order, -, -, -, -, hrun⟩ := run_plan_of_accepted h hs
    rw [Succeeds, hrun]
    exact succeeds_showed

end

/-- Whatever the format of the output: a specification is found acceptable if its text is that of
one that is. Its jobs are shown in order and its scheduled times are shown just when it is; so are
the jobs that an event starts if the event can be read, and the retries of a job if there is such
a job. Of a specification that is not acceptable, these commands show nothing but the problems. Of
one that is acceptable, the jobs are shown in the order of its graph: every job has one place in it,
and the text that is shown lists the jobs place by place. -/
theorem agreement (h : w.read? (specPath w.settings path) = some text) :
    (Succeeds w now (.validate path) ↔ ∃ s : Spec, s.IsAcceptedFrom text) ∧
    (Succeeds w now (.plan path) ↔ Succeeds w now (.validate path)) ∧
    (Succeeds w now (.schedule path) ↔ Succeeds w now (.validate path)) ∧
    (∀ event, Succeeds w now (.dispatch path event) ↔ Succeeds w now (.validate path) ∧
      ∃ content e, w.read? event = some content ∧ Event.IsReadFrom e content) ∧
    (∀ job, Succeeds w now (.retries path job) ↔ Succeeds w now (.validate path) ∧
      ∃ s j, Spec.ofYaml? text = some s ∧ s.select? job = some j) ∧
    (¬ Succeeds w now (.validate path) → ∀ event job,
      ∀ c ∈ [plan path, schedule path, dispatch path event, retries path job],
        (c.run w now).output = linesText (Spec.problemLinesOf text)) ∧
    ∀ s : Spec, s.IsAcceptedFrom text → ∃ g order, JobGraph.ofSpec s = .ok g ∧
      g.order = .ok order ∧ order.Perm s.jobNames ∧ order.Nodup ∧
      run w now (.plan path) = w.showed (g.display order) ∧
      g.Lists order w.settings.outputFormat (run w now (.plan path)).output := by
  simp only [succeeds_validate_iff h, succeeds_plan_iff h, succeeds_schedule_iff h,
    succeeds_dispatch_iff h, succeeds_retries_iff h, true_and, iff_self, implies_true]
  refine ⟨fun job => ?_, fun hn event job c hc => ?_, fun s hs => ?_⟩
  · constructor
    · rintro ⟨s, hs, j, hj⟩
      exact ⟨⟨s, hs⟩, s, j, hs.1, hj⟩
    · rintro ⟨⟨s, hs⟩, s', j, hs', hj⟩
      obtain rfl : s = s' := Option.some.inj (hs.1.symm.trans hs')
      exact ⟨s, hs, j, hj⟩
  · simp only [List.mem_cons, List.not_mem_nil, or_false] at hc
    rcases hc with rfl | rfl | rfl | rfl <;> exact output_onValidSpec_of_refused h hn
  · obtain ⟨g, order, hg, ho, hp, hnodup, hrun⟩ := run_plan_of_accepted h hs
    refine ⟨g, order, hg, ho, hp, hnodup, hrun, ?_⟩
    rw [hrun]
    exact JobGraph.lists_display g order w.settings.outputFormat

/-- The text of a specification with two jobs, of which the first one waits for the other one. -/
def pairText : String :=
  "jobs:\n- name: test\n  image: alpine\n  commands: [true]\n  job_dependencies:\n" ++
    "  - job_name: build\n- name: build\n  image: alpine\n  commands: [true]\n"

/-- The text of a specification whose only job waits for itself. -/
def selfText : String :=
  "jobs:\n- name: test\n  image: alpine\n  commands: [true]\n  job_dependencies:\n" ++
    "  - job_name: test\n"

/-- Both specifications, in a workspace whose settings ask for JSON. -/
def desk : Workspace :=
  ⟨[("pair.yml", pairText), ("self.yml", selfText)], some "output_format: json\n"⟩

theorem agreement_desk :
    desk.settings.outputFormat = .json ∧
    desk.read? "pair.yml" = some pairText ∧ Succeeds desk ⟨0, 0⟩ (.plan (some "pair.yml")) ∧
    (∃ order, order.Perm ["test", "build"] ∧
      Json.ofText? (run desk ⟨0, 0⟩ (.plan (some "pair.yml"))).output = some (.texts order)) ∧
    desk.read? "self.yml" = some selfText ∧ ¬ Succeeds desk ⟨0, 0⟩ (.validate (some "self.yml")) ∧
    (run desk ⟨0, 0⟩ (.plan (some "self.yml"))).output =
      "  ✗ jobs[0].job_dependencies[0].job_name: A job may not reference itself\n" := by
  have hformat : desk.settings.outputFormat = .json := by decide +kernel
  have hp : desk.read? "pair.yml" = some pairText := by decide +kernel
  have hs : desk.read? "self.yml" = some selfText := by decide +kernel
  have hgraph : JobGraph.ofSpec (.ofJobs [.waitingFor "test" ["build"], .waitingFor "build" []]) =
      .ok ⟨["test", "build"], [(1, 0)]⟩ := by cbv
  have hpair : Spec.IsAcceptedFrom
      (.ofJobs [.waitingFor "test" ["build"], .waitingFor "build" []]) pairText :=
    ⟨by decide +kernel, Spec.isValid_validate_iff.mpr ⟨by decide +kernel, _, hgraph⟩⟩
  have hr : Spec.ofYaml? selfText = some (.ofJobs [.waitingFor "test" ["test"]]) := by
    decide +kernel
  have hself : ¬ ∃ s : Spec, s.IsAcceptedFrom selfText := by
    rintro ⟨s, ht, hv⟩
    obtain rfl := Option.some.inj (ht.symm.trans hr)
    have hv := (Spec.isValid_validate_iff.mp hv).1
    exact absurd hv (by decide +kernel)
  obtain ⟨hvalidate, hplan, -, -, -, -, hlisted⟩ :=
    @agreement desk ⟨0, 0⟩ (some "pair.yml") pairText hp
  obtain ⟨hrefused, -, -, -, -, hout, -⟩ := @agreement desk ⟨0, 0⟩ (some "self.yml") selfText hs
  refine ⟨hformat, hp, hplan.mpr (hvalidate.mpr ⟨_, hpair⟩), ?_, hs, mt hrefused.mp hself, ?_⟩
  · obtain ⟨g, order, -, -, hperm, -, -, hlist⟩ := hlisted _ hpair
    rw [hformat] at hlist
    cases hlist with
    | json hread => exact ⟨order, hperm, hread⟩
  · rw [hout (mt hrefused.mp hself) "" "" _ List.mem_cons_self, Spec.problemLinesOf, hr]
    decide +kernel

end Command

end Pipeline
