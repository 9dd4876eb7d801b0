import Mathlib.Data.List.Induction
import Mathlib.Data.List.Infix
import Pipeline.Proofs.CommandLine.Agreement

/-!
# Settings stay as they were set

* `Settings.Assignment.IsRefused`: the changes that are not made.
* `Settings.set_cases`: a change is refused, or it gives one setting its value and leaves the others
  alone.
* `Workspace.changeSetting_cases`: so does the command that changes a setting in the file.
* `Workspace.ofFile?_afterCalls`: any number of commands, one after the other, do what the changes do
  without a file between them.
* `Workspace.settings_kept`: which commands fail, and what is in the file after all of them.
-/

namespace Pipeline

namespace Settings

/-- The name of a setting, and the value that it is to have. -/
structure Assignment where
  key : String
  value : String
  deriving DecidableEq, Repr

/-- The name is that of no setting, or the setting cannot have the value. -/
def Assignment.IsRefused (a : Assignment) : Prop :=
  a.key ∉ ["spec_path", "log_filter", "log_json", "output_format"] ∨
    (a.key = "log_json" ∧ a.value ∉ ["true", "false"]) ∨
    (a.key = "output_format" ∧ a.value ∉ ["table", "json", "yaml"])

instance (a : Assignment) : Decidable a.IsRefused := inferInstanceAs (Decidable (_ ∨ _))

/-- The written value of a setting. -/
def value? (s : Settings) (key : String) : Option String :=
  if key = "spec_path" then some s.specPath
  else if key = "log_filter" then some s.logFilter
  else if key = "log_json" then some (if s.logJson then "true" else "false")
  else if key = "output_format" then some s.outputFormat.name
  else none

/-- The settings with a change made, unless it is refused. -/
def assign (s : Settings) (a : Assignment) : Settings :=
  match s.set a.key a.value with
  | .ok s => s
  | .error _ => s

/-- The settings with changes made one after the other. -/
def assignAll (s : Settings) (as : List Assignment) : Settings := as.foldl assign s

/-- The value of the last change of a setting that is not refused. -/
def lastValue? (as : List Assignment) (key : String) : Option String :=
  (as.reverse.find? fun a => a.key = key ∧ ¬ a.IsRefused).map (·.value)

/-- Settings that are read back from their written form. -/
def IsKept (s : Settings) : Prop := ofText? s.text = some s

instance (s : Settings) : Decidable s.IsKept := inferInstanceAs (Decidable (_ = _))

variable {s : Settings} {a : Assignment} {as : List Assignment} {key : String}

theorem boolean?_cases (value : String) :
    (value ∉ ["true", "false"] ∧ boolean? value = none) ∨
      ∃ b, boolean? value = some b ∧ value = if b then "true" else "false" := by
  unfold boolean?
  split
  · exact .inr ⟨true, rfl, rfl⟩
  · exact .inr ⟨false, rfl, rfl⟩
  · exact .inl ⟨by simp_all, rfl⟩

theorem lookup_options_cases (value : String) :
    (value ∉ ["table", "json", "yaml"] ∧ OutputFormat.options.lookup value = none) ∨
      ∃ f, OutputFormat.options.lookup value = some f ∧ value = f.name := by
  by_cases h : value ∈ ["table", "json", "yaml"]
  · simp only [List.mem_cons, List.not_mem_nil, or_false] at h
    rcases h with rfl | rfl | rfl
    · exact .inr ⟨.table, rfl, rfl⟩
    · exact .inr ⟨.json, rfl, rfl⟩
    · exact .inr ⟨.yaml, rfl, rfl⟩
  · refine .inl ⟨h, List.lookup_eq_none_iff.mpr ?_⟩
    simpa [OutputFormat.options] using h

/-- A change is refused, or it gives the setting its value and leaves the others alone. -/
theorem set_cases (s : Settings) (a : Assignment) :
    (a.IsRefused ∧ ∃ e, s.set a.key a.value = .error e) ∨
    (¬ a.IsRefused ∧ ∃ t, s.set a.key a.value = .ok t ∧
      ∀ key, t.value? key = if key = a.key then some a.value else s.value? key) := by
  obtain ⟨key, value⟩ := a
  by_cases hpath : key = "spec_path"
  · subst hpath
    refine .inr ⟨by simp [Assignment.IsRefused], _, rfl, fun key => ?_⟩
    by_cases hk : key = "spec_path" <;> simp [value?, hk]
  by_cases hfilter : key = "log_filter"
  · subst hfilter
    refine .inr ⟨by simp [Assignment.IsRefused], _, rfl, fun key => ?_⟩
    by_cases hk : key = "log_filter" <;> simp [value?, hk]
  by_cases hjson : key = "log_json"
  · subst hjson
    rcases boolean?_cases value with ⟨hv, hn⟩ | ⟨b, hb, rfl⟩
    · refine .inl ⟨.inr (.inl ⟨rfl, hv⟩), .invalidBoolean value, ?_⟩
      simp [set, hn]
    · refine .inr ⟨?_, { s with logJson := b }, ?_, fun key => ?_⟩
      · cases b <;> simp [Assignment.IsRefused]
      · simp [set, hb]
      · by_cases hk : key = "log_json" <;> simp [value?, hk]
  by_cases hformat : key = "output_format"
  · subst hformat
    rcases lookup_options_cases value with ⟨hv, hn⟩ | ⟨f, hf, rfl⟩
    · refine .inl ⟨.inr (.inr ⟨rfl, hv⟩), .invalidOutputFormat value, ?_⟩
      simp [set, hn]
    · refine .inr ⟨?_, { s with outputFormat := f }, ?_, fun key => ?_⟩
      · cases f <;> simp [Assignment.IsRefused, OutputFormat.name]
      · simp [set, hf]
      · by_cases hk : key = "output_format" <;> simp [value?, hk]
  · refine .inl ⟨.inl (by simp [*]), .unknownKey key, ?_⟩
    simp [set, *]

theorem assign_of_isRefused (h : a.IsRefused) : s.assign a = s := by
  rcases set_cases s a with ⟨-, e, he⟩ | ⟨hr, -⟩
  · simp [assign, he]
  · exact absurd h hr

theorem value?_assign :
    (s.assign a).value? key =
      if key = a.key ∧ ¬ a.IsRefused then some a.value else s.value? key := by
  rcases set_cases s a with ⟨hr, e, he⟩ | ⟨hr, t, ht, hv⟩
  · simp [assign, he, hr]
  · simp [assign, ht, hv, hr]

theorem lastValue?_concat :
    lastValue? (as ++ [a]) key =
      if key = a.key ∧ ¬ a.IsRefused then some a.value else lastValue? as key := by
  rw [lastValue?, List.reverse_concat, List.find?_cons]
  by_cases h : a.key = key ∧ ¬ a.IsRefused
  · rw [if_pos ⟨h.1.symm, h.2⟩, decide_eq_true h]
    rfl
  · rw [if_neg fun h' => h ⟨h'.1.symm, h'.2⟩, decide_eq_false h]
    rfl

theorem value?_assignAll : (s.assignAll as).value? key = (lastValue? as key).or (s.value? key) := by
  induction as using List.reverseRecOn with
  | nil => rfl
  | append_singleton as a ih =>
    rw [assignAll, List.foldl_append, List.foldl_cons, List.foldl_nil, value?_assign,
      lastValue?_concat, ← assignAll, ih]
    split <;> rfl

end Settings

/-! ## Commands -/

namespace Workspace

open Settings

/-- What the command that makes a change writes and leaves. -/
def afterChange (w : Workspace) (a : Assignment) : Outcome :=
  Command.runChangeSetting w a.key a.value

/-- The files after commands that make changes, one after the other. -/
def afterChanges (w : Workspace) (as : List Assignment) : Workspace :=
  as.foldl (fun w a => (w.afterChange a).workspace) w

/-- The settings that are read from their file. -/
def Holds (w : Workspace) (s : Settings) : Prop := ofFile? w.settingsFile = some s

variable {w : Workspace} {s : Settings} {a : Assignment} {as : List Assignment}

/-- A command that makes a change fails and leaves the files, or it succeeds and leaves the changed
settings in their file. -/
theorem afterChange_cases (h : w.Holds s) :
    (a.IsRefused ∧ ∃ e, w.afterChange a = w.failed "" e) ∨
    (¬ a.IsRefused ∧ ∃ output,
      w.afterChange a = { w with settingsFile := some (s.assign a).text }.wrote output) := by
  have h : ofFile? w.settingsFile = some s := h
  rcases set_cases s a with ⟨hr, e, he⟩ | ⟨hr, t, ht, -⟩
  · refine .inl ⟨hr, .other e.message, ?_⟩
    simp [afterChange, Command.runChangeSetting, change, h, he]
  · refine .inr ⟨hr, linesText ["✓ Set " ++ a.key ++ " = " ++ a.value], ?_⟩
    simp [afterChange, Command.runChangeSetting, change, h, ht, assign]

/-- Changes of the file are changes of the settings in it, if these are read back each time. -/
theorem holds_afterChanges (h : w.Holds s)
    (hk : ∀ first, first <+: as → IsKept (s.assignAll first)) :
    (w.afterChanges as).Holds (s.assignAll as) := by
  induction as using List.reverseRecOn with
  | nil => exact h
  | append_singleton as a ih =>
    have has := ih fun first hf => hk first (hf.trans (List.prefix_append as [a]))
    have hstep : w.afterChanges (as ++ [a]) = ((w.afterChanges as).afterChange a).workspace := by
      simp [afterChanges]
    have hsettings : s.assignAll (as ++ [a]) = (s.assignAll as).assign a := by
      simp [assignAll]
    rw [hstep, hsettings]
    rcases afterChange_cases (a := a) has with ⟨hr, e, he⟩ | ⟨-, output, ho⟩
    · rw [he, assign_of_isRefused hr]
      exact has
    · rw [ho]
      exact hsettings ▸ hk _ List.prefix_rfl

/-- Where the file of the settings is missing at first, commands that change settings fail just if
the change is refused, and those that fail leave the file as it is. After all of them, each setting
has the value of the last change of it that was not refused, or the standard one. -/
theorem settings_kept (hw : w.settingsFile = none)
    (hk : ∀ first, first <+: as → IsKept (Settings.standard.assignAll first)) :
    (∀ first a, first ++ [a] <+: as →
      (¬ ((w.afterChanges first).afterChange a).Succeeds ↔ a.IsRefused) ∧
      (¬ ((w.afterChanges first).afterChange a).Succeeds →
        ((w.afterChanges first).afterChange a).workspace = w.afterChanges first)) ∧
    ∃ s, (w.afterChanges as).Holds s ∧
      ∀ key, s.value? key = (lastValue? as key).or (Settings.standard.value? key) := by
  have hstart : w.Holds .standard := by rw [Holds, hw, ofFile?]
  refine ⟨fun first a hf => ?_, _, holds_afterChanges hstart hk, fun key => value?_assignAll⟩
  have hfirst : (w.afterChanges first).Holds (Settings.standard.assignAll first) :=
    holds_afterChanges hstart fun f hff => hk f (hff.trans ((List.prefix_append _ _).trans hf))
  rcases afterChange_cases (a := a) hfirst with ⟨hr, e, he⟩ | ⟨hr, output, ho⟩
  · rw [he]
    exact ⟨iff_of_true not_succeeds_failed hr, fun _ => rfl⟩
  · rw [ho]
    exact ⟨iff_of_false (not_not_intro succeeds_wrote) hr, fun h => absurd succeeds_wrote h⟩

/-- Three changes, the first of which is refused. -/
def someChanges : List Assignment := [⟨"log_json", "yes"⟩, ⟨"spec_path", "a: b"⟩, ⟨"spec_path", "no"⟩]

theorem settings_kept_someChanges :
    (∀ first, first <+: someChanges → IsKept (Settings.standard.assignAll first)) ∧
    ¬ (afterChange ⟨[], none⟩ ⟨"log_json", "yes"⟩).Succeeds ∧
    (afterChange ⟨[], none⟩ ⟨"log_json", "yes"⟩).workspace.settingsFile = none ∧
    ∃ s, (afterChanges ⟨[], none⟩ someChanges).Holds s ∧ s.value? "log_json" = some "false" ∧
      s.value? "spec_path" = some "no" := by
  have hk : ∀ first ∈ someChanges.inits, IsKept (Settings.standard.assignAll first) := by
    decide +kernel
  have hk : ∀ first, first <+: someChanges → IsKept (Settings.standard.assignAll first) :=
    fun first hf => hk first ((List.mem_inits first someChanges).mpr hf)
  obtain ⟨hcalls, s, hs, hv⟩ := @settings_kept ⟨[], none⟩ someChanges rfl hk
  obtain ⟨hfails, hleaves⟩ := hcalls [] ⟨"log_json", "yes"⟩ ⟨_, rfl⟩
  have hf := hfails.mpr (by decide)
  refine ⟨hk, hf, congrArg settingsFile (hleaves hf), s, hs, ?_, ?_⟩
  · rw [hv]
    decide
  · rw [hv]
    decide

end Workspace

end Pipeline
