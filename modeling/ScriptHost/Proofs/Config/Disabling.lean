import ScriptHost.Proofs.Config.Precedence

/-!
# Features that are switched off

A command line that switches features off does not override these features alone.  What it overrides
is the setting that says of every feature whether it is on, so it fixes all of them: those that it
does not name stay as they are at that moment, whatever mapping is set or loaded afterwards.  The
next command lines start from there, so it is the first one that counts.

* `Setting.leavesOn`: what a mapping says of a feature.
* `Config.counted`: the entries up to the first command line that switches features off.
* `features_after`: the features after a run, in which every mapping is one of features.
* `not_left_to_mapping`: a feature that is on although it was never named and the mapping in force
  says that it is off.
-/

namespace ScriptHost

/-- Whether a mapping leaves a feature on. -/
def Setting.leavesOn (x : Setting) (f : Feature) : Bool :=
  match x with
  | .datum (.map entries) => Features.isOnIn entries f
  | _ => true

/-- The setting is a mapping of names of features. -/
def Setting.MapsFeatures (x : Setting) : Prop :=
  ∃ entries, x = .datum (.map entries) ∧ ∀ entry ∈ entries, ∃ f : Feature, entry.1 = .string f.name

theorem Setting.MapsFeatures.toFeatures {x : Setting} (h : x.MapsFeatures) :
    x.toFeatures = .ok ⟨x.leavesOn⟩ := by
  obtain ⟨entries, rfl, hkeys⟩ := h
  exact Features.ofDatum_map hkeys

theorem Settings.mem_of_last? {entries : Settings} {key : String} {x : Setting}
    (h : entries.last? key = some x) : (key, x) ∈ entries := by
  obtain ⟨entry, hentry, hd⟩ := List.mem_filterMap.mp (List.mem_of_getLast? h)
  split at hd
  · rename_i hkey
    rw [← hkey, ← Option.some.inj hd]
    exact hentry
  · exact absurd hd nofun

namespace Config

/-- The last mapping of features among entries; without one, all features are left on. -/
def mappingIn (entries : Settings) : Setting :=
  (entries.last? featuresKey).getD (.datum (.map []))

/-- What steps enter up to the first that switches features off, its own entries included. -/
def counted : List (Step × Config) → Settings
  | [] => []
  | p :: rest => p.1.entries ++ if (p.1.disabled p.2).isEmpty then counted rest else []

/-- Whatever a step enters as features is a mapping of names of features. -/
def Step.MapsFeatures (s : Step) : Prop :=
  ∀ x, (featuresKey, x) ∈ s.entries → x.MapsFeatures

variable {run : List (Step × Config)} {c : Config}

theorem mapsFeatures_mappingIn {entries : Settings}
    (h : ∀ x, (featuresKey, x) ∈ entries → x.MapsFeatures) : (mappingIn entries).MapsFeatures := by
  rw [mappingIn]
  cases hlast : entries.last? featuresKey with
  | none => exact ⟨[], rfl, by simp⟩
  | some x => exact h x (Settings.mem_of_last? hlast)

theorem mapsFeatures_of_mem_entriesOf (h : ∀ p ∈ run, p.1.MapsFeatures) (x : Setting)
    (hx : (featuresKey, x) ∈ entriesOf run) : x.MapsFeatures := by
  obtain ⟨p, hp, hentry⟩ := List.mem_flatMap.mp hx
  exact h p hp x hentry

theorem counted_concat_of_nil (h : disabledOf run = []) (p : Step × Config) :
    counted (run ++ [p]) = entriesOf run ++ p.1.entries := by
  induction run with
  | nil => simp [counted, entriesOf]
  | cons first rest ih =>
    rw [disabledOf, List.flatMap_cons, List.append_eq_nil_iff] at h
    rw [List.cons_append, counted, h.1, List.isEmpty_nil, if_pos rfl, ih h.2, entriesOf, entriesOf,
      List.flatMap_cons, List.append_assoc]

theorem counted_concat_of_ne_nil (h : disabledOf run ≠ []) (p : Step × Config) :
    counted (run ++ [p]) = counted run := by
  induction run with
  | nil => exact absurd rfl h
  | cons first rest ih =>
    rw [List.cons_append, counted, counted]
    cases hfirst : first.1.disabled first.2 with
    | cons f off => rfl
    | nil =>
      rw [disabledOf, List.flatMap_cons, hfirst, List.nil_append] at h
      rw [ih h]

theorem counted_of_nil (h : disabledOf run = []) : counted run = entriesOf run := by
  induction run with
  | nil => rfl
  | cons first rest ih =>
    rw [disabledOf, List.flatMap_cons, List.append_eq_nil_iff] at h
    rw [counted, h.1, List.isEmpty_nil, if_pos rfl, ih h.2, entriesOf, entriesOf, List.flatMap_cons]

/-- The features are those that the counted mapping leaves on, less those that have been switched
off; and they are overridden once one has been. -/
structure Governed (run : List (Step × Config)) (c : Config) : Prop where
  layered : Layered run c
  entered : disabledOf run = [] → c.overrides.get? featuresKey = none
  overridden : disabledOf run ≠ [] → ∃ fs : Features,
    c.overrides.get? featuresKey = some (.datum fs.toDatum) ∧
      ∀ f, fs.has f = ((mappingIn (counted run)).leavesOn f && !(disabledOf run).contains f)

/-- Without an override it is the mapping in force that says which features are on. -/
theorem features_of_mapping {entries : Settings}
    (hsetting : c.settings.get? featuresKey =
      (entries.last? featuresKey).or (defaults.get? featuresKey))
    (hoverride : c.overrides.get? featuresKey = none) (hmaps : (mappingIn entries).MapsFeatures) :
    c.features = .ok ⟨(mappingIn entries).leavesOn⟩ := by
  have hdefault : defaults.get? featuresKey = some (.datum (.map [])) := rfl
  have hvalue : (c.get? featuresKey).getD Datum.unit = mappingIn entries := by
    rw [get?, hoverride, Option.none_or, hsetting, hdefault, mappingIn]
    cases entries.last? featuresKey <;> rfl
  rw [features, hvalue, hmaps.toFeatures]

theorem Governed.features (h : Governed run c) (hmaps : ∀ p ∈ run, p.1.MapsFeatures) :
    ∃ fs : Features, c.features = .ok fs ∧
      ∀ f, fs.has f = ((mappingIn (counted run)).leavesOn f && !(disabledOf run).contains f) := by
  by_cases hoff : disabledOf run = []
  · refine ⟨_, features_of_mapping (h.layered.settings _) (h.entered hoff)
      (mapsFeatures_mappingIn (mapsFeatures_of_mem_entriesOf hmaps)), fun f => ?_⟩
    rw [counted_of_nil hoff, hoff]
    simp
  · obtain ⟨fs, hoverride, hhas⟩ := h.overridden hoff
    exact ⟨fs, features_of_override hoverride, hhas⟩

/-- A step that switches features off starts from those that are counted so far, or from the
mapping in force if it is the first. -/
theorem Governed.features_enter (h : Governed run c) {s : Step}
    (hmaps : ∀ p ∈ run ++ [(s, c)], p.1.MapsFeatures) {fs : Features}
    (hfs : (c.enter s.entries).features = .ok fs) (f : Feature) :
    fs.has f =
      ((mappingIn (counted (run ++ [(s, c)]))).leavesOn f && !(disabledOf run).contains f) := by
  by_cases hoff : disabledOf run = []
  · have hsettings := (h.layered.concat s).settings featuresKey
    rw [entriesOf_concat] at hsettings
    have hentries := mapsFeatures_mappingIn (mapsFeatures_of_mem_entriesOf hmaps)
    rw [entriesOf_concat] at hentries
    have hfeatures : (c.enter s.entries).features = .ok ⟨(mappingIn _).leavesOn⟩ :=
      features_of_mapping hsettings (h.entered hoff) hentries
    rw [← Except.ok.inj (hfeatures.symm.trans hfs), counted_concat_of_nil hoff, hoff]
    simp
  · obtain ⟨old, hoverride, hhas⟩ := h.overridden hoff
    have hold : (c.enter s.entries).features = .ok old := features_of_override hoverride
    rw [← Except.ok.inj (hold.symm.trans hfs), counted_concat_of_ne_nil hoff, hhas]

theorem Governed.concat (h : Governed run c) {s : Step} (hs : s ≠ .reset)
    (hmaps : ∀ p ∈ run ++ [(s, c)], p.1.MapsFeatures) :
    Governed (run ++ [(s, c)]) ((c.enter s.entries).overriding (s.overrides c)) := by
  refine ⟨h.layered.concat s, ?_, ?_⟩ <;> rw [disabledOf_concat, get?_overriding] <;>
    rcases Step.last?_overrides c hs with ⟨hnone, hlast⟩ | ⟨hsome, fs, hfs, hlast⟩
  · rw [hnone, hlast, List.append_nil, Option.none_or]
    exact h.entered
  · exact fun hnil => absurd (List.append_eq_nil_iff.mp hnil).2 hsome
  · rw [hnone, hlast, List.append_nil, Option.none_or]
    intro hoff
    rw [counted_concat_of_ne_nil hoff]
    exact h.overridden hoff
  · rw [hlast, Option.some_or]
    refine fun _ => ⟨_, rfl, fun f => ?_⟩
    have hhas := h.features_enter hmaps hfs f
    simp [Features.without, hhas, Bool.and_assoc]

theorem governed_after (steps : List Step)
    (hmaps : ∀ p ∈ initial.period steps, p.1.MapsFeatures) :
    Governed (initial.period steps) (initial.after steps) := by
  revert hmaps
  refine after_induction (P := fun run c => (∀ p ∈ run, p.1.MapsFeatures) → Governed run c)
    (fun _ => ⟨⟨fun _ => rfl, fun _ => rfl⟩, fun _ => rfl, fun h => absurd rfl h⟩) ?_ steps
  exact fun run c s hs h hmaps =>
    (h fun p hp => hmaps p (List.mem_append_left _ hp)).concat hs hmaps

/-- The steps since the last reset are steps of the run. -/
theorem mem_of_mem_period {steps : List Step} {p : Step × Config} (hp : p ∈ c.period steps) :
    p.1 ∈ steps := by
  have htrace : p ∈ c.trace steps := (List.rtakeWhile_suffix _ _).subset hp
  clear hp
  induction steps generalizing c with
  | nil => exact absurd htrace List.not_mem_nil
  | cons s rest ih =>
    rw [trace, List.mem_cons] at htrace
    rcases htrace with rfl | htrace
    · exact List.mem_cons_self
    · exact List.mem_cons_of_mem s (ih htrace)

/-- **Switching features off fixes all others.**  After any run in which whatever is entered as
features is a mapping of them, a feature is on just if the counted mapping leaves it on and no
command line has switched it off since the last reset: the mapping in force at the first command
line that switched features off, or the one in force now if there was none. -/
theorem features_after (steps : List Step) (hmaps : ∀ s ∈ steps, s.MapsFeatures) :
    ∃ fs : Features, (initial.after steps).features = .ok fs ∧
      ∀ f, fs.has f = ((mappingIn (counted (initial.period steps))).leavesOn f &&
        !(disabledOf (initial.period steps)).contains f) := by
  have hperiod : ∀ p ∈ initial.period steps, p.1.MapsFeatures :=
    fun p hp => hmaps p.1 (mem_of_mem_period hp)
  exact (governed_after steps hperiod).features hperiod

/-- One feature is switched off, and a mapping that is set afterwards leaves another one off. -/
def disabledThenSet : List Step :=
  [.arguments (.ofList "" []) ["--disable", "arrays"],
   .set featuresKey (Datum.map [(.string "object_maps", .bool false)])]

theorem mapsFeatures_disabledThenSet : ∀ s ∈ disabledThenSet, s.MapsFeatures := by
  have hline : (lineEntries (.ofList "" []) ["--disable", "arrays"]).isEmpty := by decide +kernel
  refine List.forall_mem_cons.mpr ⟨fun d hd => ?_, List.forall_mem_singleton.mpr fun d hd => ?_⟩
  · rw [Step.entries, List.isEmpty_iff.mp hline] at hd
    exact absurd hd List.not_mem_nil
  · rw [Step.entries, List.mem_singleton, Prod.mk.injEq] at hd
    exact ⟨_, hd.2, List.forall_mem_singleton.mpr ⟨.objectMaps, rfl⟩⟩

/-- The mapping that is set afterwards does not count. -/
theorem features_disabledThenSet :
    (∀ s ∈ disabledThenSet, s.MapsFeatures) ∧
      ∃ fs : Features, (initial.after disabledThenSet).features = .ok fs ∧
        fs.has .arrays = false ∧ fs.has .objectMaps = true := by
  obtain ⟨fs, hfs, hhas⟩ := features_after disabledThenSet mapsFeatures_disabledThenSet
  refine ⟨mapsFeatures_disabledThenSet, fs, hfs, ?_, ?_⟩
  · rw [hhas]
    decide +kernel
  · rw [hhas]
    decide +kernel

/-- Features that have not been switched off need not be as the mapping in force says. -/
theorem not_left_to_mapping :
    ¬ ∀ steps : List Step, (∀ s ∈ steps, s.MapsFeatures) →
      (∀ p ∈ initial.trace steps, (p.1.perform p.2).1.isOk) →
      ∀ fs, (initial.after steps).features = .ok fs →
      ∀ f ∉ disabledOf (initial.period steps),
        fs.has f = (mappingIn (entriesOf (initial.period steps))).leavesOn f := by
  intro h
  have hsucceeds : ∀ p ∈ initial.trace disabledThenSet, (p.1.perform p.2).1.isOk := by
    decide +kernel
  have hnever : Feature.objectMaps ∉ disabledOf (initial.period disabledThenSet) := by
    decide +kernel
  have hon : (initial.after disabledThenSet).features.toOption.map (·.has .objectMaps) =
      some true := by decide +kernel
  have hmapping : (mappingIn (entriesOf (initial.period disabledThenSet))).leavesOn .objectMaps =
      false := by decide +kernel
  cases hfs : (initial.after disabledThenSet).features with
  | error x => rw [hfs] at hon; exact absurd hon nofun
  | ok fs =>
    rw [hfs] at hon
    have hhas : fs.has .objectMaps = true := Option.some.inj hon
    have hleft := h disabledThenSet mapsFeatures_disabledThenSet hsucceeds fs hfs _ hnever
    rw [hhas, hmapping] at hleft
    exact absurd hleft.symm Bool.false_ne_true

end Config
end ScriptHost
