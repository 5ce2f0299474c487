import ScriptHost.Table
import Mathlib.Data.List.Induction
import Mathlib.Data.List.Nodup

/-!
# What a table holds

A table keeps its functions in one list, and `Table.insert` edits that list in place.  Seen
from outside only the *history* matters: the functions that were entered, one after another.
This file says what the list is in terms of the history alone.

* `amend`: entering a function among the overloads of its own name.
* `block`: the overloads of a name that a history leaves, and `entered_eq_flatMap_block`:
  the whole list is the blocks of the names, in the order in which the names first occur.
* `filter_entered`: the overloads of a name in the list are its block.
* `Latest`, `mem_block_iff`: a function stands in a block exactly when it is the last one
  that was entered under its key.
* `Earlier`, `pairwise_earlier_block`: the keys of a block stand in the order in which they
  were first entered; entering a key again moves nothing.

All inductions on a history go from its end, since that is where an entry is added.
-/

namespace ScriptHost
namespace Table

/-- The list of a table without functions into which these were entered in order. -/
def entered (ws : List Native) : List Native := ws.foldl (fun fs f => insert f fs) []

@[simp] theorem entered_nil : entered [] = [] := rfl

@[simp] theorem entered_concat (ws : List Native) (f : Native) :
    entered (ws ++ [f]) = insert f (entered ws) := by
  simp [entered]

/-! ## Entering among the overloads of one name -/

/-- Puts a function in place of the one with the same kinds, else at the end. -/
def amend (f : Native) : List Native → List Native
  | [] => [f]
  | g :: rest => if g.kinds = f.kinds then f :: rest else g :: amend f rest

theorem amend_ne_nil (f : Native) (fs : List Native) : amend f fs ≠ [] := by
  cases fs with
  | nil => exact List.cons_ne_nil _ _
  | cons g rest =>
    rw [amend]
    split
    · exact List.cons_ne_nil _ _
    · exact List.cons_ne_nil _ _

theorem mem_of_mem_amend {f g : Native} {fs : List Native} (h : g ∈ amend f fs) :
    g = f ∨ g ∈ fs := by
  induction fs with
  | nil => exact Or.inl (List.mem_singleton.mp h)
  | cons x rest ih =>
    rw [amend] at h
    split at h
    · rcases List.mem_cons.mp h with rfl | h
      · exact Or.inl rfl
      · exact Or.inr (List.mem_cons_of_mem _ h)
    · rcases List.mem_cons.mp h with rfl | h
      · exact Or.inr List.mem_cons_self
      · rcases ih h with rfl | h
        · exact Or.inl rfl
        · exact Or.inr (List.mem_cons_of_mem _ h)

/-- The kinds of the overloads change only by those of a new one, which come last. -/
theorem map_kinds_amend (f : Native) (fs : List Native) :
    (amend f fs).map Native.kinds =
      if f.kinds ∈ fs.map Native.kinds then fs.map Native.kinds
      else fs.map Native.kinds ++ [f.kinds] := by
  induction fs with
  | nil => simp [amend]
  | cons g rest ih =>
    rw [amend]
    by_cases hg : g.kinds = f.kinds
    · simp [hg]
    · have hg' : ¬ f.kinds = g.kinds := fun h => hg h.symm
      rw [if_neg hg, List.map_cons, ih]
      by_cases hr : f.kinds ∈ rest.map Native.kinds
      · rw [if_pos hr, if_pos (by rw [List.map_cons]; exact List.mem_cons_of_mem _ hr),
          List.map_cons]
      · rw [if_neg hr, if_neg, List.map_cons, List.cons_append]
        rw [List.map_cons, List.mem_cons, not_or]
        exact ⟨hg', hr⟩

/-- Among overloads with distinct kinds, entering replaces exactly the one of the same
kinds. -/
theorem mem_amend_iff {f g : Native} {fs : List Native} (hfs : (fs.map Native.kinds).Nodup) :
    g ∈ amend f fs ↔ g = f ∨ (g ∈ fs ∧ g.kinds ≠ f.kinds) := by
  induction fs with
  | nil => simp [amend]
  | cons x rest ih =>
    rw [List.map_cons, List.nodup_cons] at hfs
    rw [amend]
    by_cases hx : x.kinds = f.kinds
    · rw [if_pos hx, List.mem_cons, List.mem_cons]
      constructor
      · rintro (rfl | hg)
        · exact Or.inl rfl
        · refine Or.inr ⟨Or.inr hg, fun hk => hfs.1 ?_⟩
          rw [hx, ← hk]
          exact List.mem_map_of_mem hg
      · rintro (rfl | ⟨rfl | hg, hk⟩)
        · exact Or.inl rfl
        · exact absurd hx hk
        · exact Or.inr hg
    · rw [if_neg hx, List.mem_cons, List.mem_cons, ih hfs.2]
      constructor
      · rintro (rfl | rfl | ⟨hg, hk⟩)
        · exact Or.inr ⟨Or.inl rfl, hx⟩
        · exact Or.inl rfl
        · exact Or.inr ⟨Or.inr hg, hk⟩
      · rintro (rfl | ⟨rfl | hg, hk⟩)
        · exact Or.inr (Or.inl rfl)
        · exact Or.inl rfl
        · exact Or.inr (Or.inr ⟨hg, hk⟩)

/-! ## Entering into the whole list -/

/-- Functions of other names are skipped. -/
theorem insert_append_of_forall_ne {f : Native} {as : List Native} (bs : List Native)
    (has : ∀ g ∈ as, g.name ≠ f.name) : insert f (as ++ bs) = as ++ insert f bs := by
  induction as with
  | nil => rfl
  | cons g rest ih =>
    have hg : g.name ≠ f.name := has g List.mem_cons_self
    rw [List.cons_append, insert, if_neg hg, ih fun x hx => has x (List.mem_cons_of_mem _ hx),
      List.cons_append]

/-- At the head of the overloads of its name, a function is entered among them and the rest
of the list stays. -/
theorem insertOverload_append {f : Native} {as bs : List Native}
    (has : ∀ g ∈ as, g.name = f.name) (hbs : ∀ g ∈ bs.head?, g.name ≠ f.name) :
    insertOverload f (as ++ bs) = amend f as ++ bs := by
  induction as with
  | nil =>
    cases bs with
    | nil => rfl
    | cons g rest =>
      have hg : g.name ≠ f.name := hbs g rfl
      rw [List.nil_append, insertOverload, if_neg hg]
      rfl
  | cons g rest ih =>
    have hg : g.name = f.name := has g List.mem_cons_self
    rw [List.cons_append, insertOverload, if_pos hg, amend]
    by_cases hk : g.kinds = f.kinds
    · rw [if_pos hk, if_pos hk, List.cons_append]
    · rw [if_neg hk, if_neg hk, ih fun x hx => has x (List.mem_cons_of_mem _ hx),
        List.cons_append]

/-- The list splits at the overloads of the name; these are edited and nothing else is. -/
theorem insert_append_block {f : Native} {as bs cs : List Native}
    (has : ∀ g ∈ as, g.name ≠ f.name) (hbs : ∀ g ∈ bs, g.name = f.name) (hne : bs ≠ [])
    (hcs : ∀ g ∈ cs, g.name ≠ f.name) :
    insert f (as ++ (bs ++ cs)) = as ++ (amend f bs ++ cs) := by
  have hhead : ∀ g ∈ cs.head?, g.name ≠ f.name := fun g hg => hcs g (List.mem_of_mem_head? hg)
  rw [insert_append_of_forall_ne _ has, ← insertOverload_append hbs hhead]
  cases bs with
  | nil => exact absurd rfl hne
  | cons g rest =>
    have hg : g.name = f.name := hbs g List.mem_cons_self
    rw [List.cons_append, insert, if_pos hg]

/-! ## The blocks of a history -/

/-- The overloads of a name that a history leaves. -/
def block (ws : List Native) (name : String) : List Native :=
  (ws.filter fun f => f.name == name).foldl (fun fs f => amend f fs) []

@[simp] theorem block_nil (name : String) : block [] name = [] := rfl

theorem block_concat_self (ws : List Native) (f : Native) :
    block (ws ++ [f]) f.name = amend f (block ws f.name) := by
  simp [block]

theorem block_concat_of_ne (ws : List Native) {f : Native} {name : String} (h : f.name ≠ name) :
    block (ws ++ [f]) name = block ws name := by
  simp [block, h]

theorem name_eq_of_mem_block {ws : List Native} {name : String} {g : Native}
    (hg : g ∈ block ws name) : g.name = name := by
  induction ws using List.reverseRecOn with
  | nil => exact absurd hg List.not_mem_nil
  | append_singleton ws f ih =>
    by_cases hf : f.name = name
    · subst hf
      rw [block_concat_self] at hg
      rcases mem_of_mem_amend hg with rfl | hg
      · rfl
      · exact ih hg
    · rw [block_concat_of_ne _ hf] at hg
      exact ih hg

/-- A name has overloads as soon as a function of that name has been entered. -/
theorem block_eq_nil_iff {ws : List Native} {name : String} :
    block ws name = [] ↔ name ∉ ws.map (·.name) := by
  induction ws using List.reverseRecOn with
  | nil => simp
  | append_singleton ws f ih =>
    rw [List.map_append, List.mem_append, not_or, ← ih]
    by_cases hf : f.name = name
    · subst hf
      rw [block_concat_self]
      simp [amend_ne_nil]
    · rw [block_concat_of_ne _ hf]
      simp [Ne.symm hf]

/-- What occurs once more is not listed again; what is new is listed last. -/
theorem eraseDups_concat {α : Type} [BEq α] [LawfulBEq α] (xs : List α) (x : α) :
    (xs ++ [x]).eraseDups = if x ∈ xs then xs.eraseDups else xs.eraseDups ++ [x] := by
  rw [List.eraseDups_append]
  by_cases hx : x ∈ xs
  · simp [List.removeAll, hx]
  · simp [List.removeAll, hx, List.eraseDups_cons]

theorem nodup_eraseDups {α : Type} [BEq α] [LawfulBEq α] (xs : List α) :
    xs.eraseDups.Nodup := by
  induction xs using List.reverseRecOn with
  | nil => exact List.nodup_nil
  | append_singleton xs x ih =>
    rw [eraseDups_concat]
    split
    · exact ih
    · rename_i hx
      refine List.nodup_append.mpr ⟨ih, List.nodup_singleton x, ?_⟩
      rintro a ha b hb rfl
      rw [List.mem_singleton.mp hb] at ha
      exact hx (List.mem_eraseDups.mp ha)

/-- The blocks of names that a new function does not have stay as they are. -/
theorem flatMap_block_concat {ws : List Native} {f : Native} {names : List String}
    (h : f.name ∉ names) : names.flatMap (block (ws ++ [f])) = names.flatMap (block ws) := by
  refine List.flatMap_congr fun name hname => block_concat_of_ne ws ?_
  rintro rfl
  exact h hname

theorem ne_name_of_mem_flatMap_block (ws : List Native) {names : List String} {name : String}
    (h : name ∉ names) : ∀ g ∈ names.flatMap (block ws), g.name ≠ name := by
  rintro g hg rfl
  obtain ⟨m, hm, hgm⟩ := List.mem_flatMap.mp hg
  rw [name_eq_of_mem_block hgm] at h
  exact h hm

/-- **The list of a table is made of the blocks of its history**, in the order in which the
names were first entered. -/
theorem entered_eq_flatMap_block (ws : List Native) :
    entered ws = (ws.map (·.name)).eraseDups.flatMap (block ws) := by
  induction ws using List.reverseRecOn with
  | nil => rfl
  | append_singleton ws f ih =>
    rw [entered_concat, ih, List.map_append, List.map_singleton, eraseDups_concat]
    by_cases hf : f.name ∈ ws.map (·.name)
    · rw [if_pos hf]
      -- the names split at that of the new function, which occurs on neither side
      obtain ⟨as, bs, hsplit⟩ := List.append_of_mem (List.mem_eraseDups.mpr hf)
      have hnodup := nodup_eraseDups (ws.map (·.name))
      rw [hsplit] at hnodup ⊢
      have has : f.name ∉ as := fun h =>
        (List.nodup_append.mp hnodup).2.2 _ h _ List.mem_cons_self rfl
      have hbs : f.name ∉ bs := (List.nodup_cons.mp (List.nodup_append.mp hnodup).2.1).1
      have hne : block ws f.name ≠ [] := fun h => block_eq_nil_iff.mp h hf
      rw [List.flatMap_append, List.flatMap_append, List.flatMap_cons, List.flatMap_cons,
        insert_append_block (ne_name_of_mem_flatMap_block ws has)
          (fun g hg => name_eq_of_mem_block hg) hne (ne_name_of_mem_flatMap_block ws hbs),
        flatMap_block_concat has, flatMap_block_concat hbs, block_concat_self]
    · rw [if_neg hf]
      have hnew : f.name ∉ (ws.map (·.name)).eraseDups := fun h => hf (List.mem_eraseDups.mp h)
      have hnil : block ws f.name = [] := block_eq_nil_iff.mpr hf
      rw [List.flatMap_append, List.flatMap_singleton, flatMap_block_concat hnew,
        block_concat_self, hnil, amend]
      have h := insert_append_of_forall_ne [] (ne_name_of_mem_flatMap_block ws hnew)
      rw [List.append_nil] at h
      rw [h, insert]

theorem filter_flatMap_block {ws : List Native} {names : List String} (h : names.Nodup)
    (name : String) :
    (names.flatMap (block ws)).filter (fun f => f.name == name) =
      if name ∈ names then block ws name else [] := by
  induction names with
  | nil => simp
  | cons m rest ih =>
    rw [List.nodup_cons] at h
    rw [List.flatMap_cons, List.filter_append, ih h.2]
    by_cases hm : name = m
    · subst hm
      have hall : (block ws name).filter (fun f => f.name == name) = block ws name :=
        List.filter_eq_self.mpr fun g hg => beq_iff_eq.mpr (name_eq_of_mem_block hg)
      rw [hall, if_neg h.1, if_pos List.mem_cons_self, List.append_nil]
    · have hnone : (block ws m).filter (fun f => f.name == name) = [] := by
        refine List.filter_eq_nil_iff.mpr fun g hg hgn => hm ?_
        rw [← beq_iff_eq.mp hgn, name_eq_of_mem_block hg]
      rw [hnone, List.nil_append]
      simp [hm]

/-- **The overloads of a name in the list are its block.** -/
theorem filter_entered (ws : List Native) (name : String) :
    (entered ws).filter (fun f => f.name == name) = block ws name := by
  rw [entered_eq_flatMap_block, filter_flatMap_block (nodup_eraseDups _)]
  split
  · rfl
  · rename_i h
    exact (block_eq_nil_iff.mpr fun hm => h (List.mem_eraseDups.mpr hm)).symm

/-! ## Which function stands under a key -/

/-- The function is the last one of a history that was entered under its key. -/
def Latest (ws : List Native) (f : Native) : Prop :=
  ∃ before after, ws = before ++ f :: after ∧ ∀ g ∈ after, g.key ≠ f.key

theorem Latest.mem {ws : List Native} {f : Native} (h : Latest ws f) : f ∈ ws := by
  obtain ⟨before, after, rfl, -⟩ := h
  exact List.mem_append_right _ List.mem_cons_self

theorem not_latest_nil (f : Native) : ¬ Latest [] f := fun h => absurd h.mem List.not_mem_nil

theorem latest_concat_iff {ws : List Native} {f g : Native} :
    Latest (ws ++ [f]) g ↔ g = f ∨ (Latest ws g ∧ g.key ≠ f.key) := by
  constructor
  · rintro ⟨before, after, heq, hafter⟩
    rcases List.eq_nil_or_concat after with rfl | ⟨after', x, rfl⟩
    · exact Or.inl (List.append_inj' heq rfl |>.2 |> List.singleton_inj.mp).symm
    · rw [List.concat_eq_append] at heq hafter
      rw [← List.cons_append, ← List.append_assoc] at heq
      obtain ⟨hws, hx⟩ := List.append_inj' heq rfl
      have hfx : f = x := List.singleton_inj.mp hx
      refine Or.inr ⟨⟨before, after', hws, fun y hy => ?_⟩, fun hk => ?_⟩
      · exact hafter y (List.mem_append_left _ hy)
      · exact hafter x (List.mem_append_right _ List.mem_cons_self) (by rw [← hfx, hk])
  · rintro (rfl | ⟨⟨before, after, rfl, hafter⟩, hk⟩)
    · exact ⟨ws, [], rfl, by simp⟩
    · refine ⟨before, after ++ [f], by simp, fun y hy => ?_⟩
      rcases List.mem_append.mp hy with hy | hy
      · exact hafter y hy
      · rw [List.mem_singleton.mp hy]
        exact Ne.symm hk

/-- One key has one last function. -/
theorem Latest.unique {ws : List Native} {f g : Native} (hf : Latest ws f) (hg : Latest ws g)
    (hk : f.key = g.key) : f = g := by
  induction ws using List.reverseRecOn with
  | nil => exact absurd hf (not_latest_nil f)
  | append_singleton ws x ih =>
    rcases latest_concat_iff.mp hf with rfl | ⟨hf, hfx⟩
    · rcases latest_concat_iff.mp hg with rfl | ⟨-, hgx⟩
      · rfl
      · exact absurd hk.symm hgx
    · rcases latest_concat_iff.mp hg with rfl | ⟨hg, -⟩
      · exact absurd hk hfx
      · exact ih hf hg

/-- Every key that was entered has a last function. -/
theorem exists_latest {ws : List Native} {g : Native} (hg : g ∈ ws) :
    ∃ f, Latest ws f ∧ f.key = g.key := by
  induction ws using List.reverseRecOn with
  | nil => exact absurd hg List.not_mem_nil
  | append_singleton ws x ih =>
    by_cases hk : g.key = x.key
    · exact ⟨x, latest_concat_iff.mpr (Or.inl rfl), hk.symm⟩
    · rcases List.mem_append.mp hg with hg | hg
      · obtain ⟨f, hf, hfk⟩ := ih hg
        exact ⟨f, latest_concat_iff.mpr (Or.inr ⟨hf, by rw [hfk]; exact hk⟩), hfk⟩
      · rw [List.mem_singleton.mp hg] at hk
        exact absurd rfl hk

theorem key_eq_iff {f g : Native} : f.key = g.key ↔ f.name = g.name ∧ f.kinds = g.kinds := by
  rw [Native.key, Native.key, Key.mk.injEq]

theorem nodup_kinds_block (ws : List Native) (name : String) :
    ((block ws name).map Native.kinds).Nodup := by
  induction ws using List.reverseRecOn with
  | nil => exact List.nodup_nil
  | append_singleton ws f ih =>
    by_cases hf : f.name = name
    · subst hf
      rw [block_concat_self, map_kinds_amend]
      split
      · exact ih
      · rename_i hk
        refine List.nodup_append.mpr ⟨ih, List.nodup_singleton _, ?_⟩
        rintro a ha b hb rfl
        rw [List.mem_singleton.mp hb] at ha
        exact hk ha
    · rw [block_concat_of_ne _ hf]
      exact ih

/-- **A function stands in a table exactly when it is the last one under its key.** -/
theorem mem_block_iff {ws : List Native} {name : String} {g : Native} :
    g ∈ block ws name ↔ g.name = name ∧ Latest ws g := by
  induction ws using List.reverseRecOn with
  | nil => simp [not_latest_nil]
  | append_singleton ws f ih =>
    rw [latest_concat_iff]
    by_cases hf : f.name = name
    · subst hf
      rw [block_concat_self, mem_amend_iff (nodup_kinds_block ws f.name), ih]
      constructor
      · rintro (rfl | ⟨⟨hn, hg⟩, hk⟩)
        · exact ⟨rfl, Or.inl rfl⟩
        · exact ⟨hn, Or.inr ⟨hg, fun h => hk (key_eq_iff.mp h).2⟩⟩
      · rintro ⟨hn, rfl | ⟨hg, hk⟩⟩
        · exact Or.inl rfl
        · exact Or.inr ⟨⟨hn, hg⟩, fun h => hk (key_eq_iff.mpr ⟨hn, h⟩)⟩
    · rw [block_concat_of_ne _ hf, ih]
      constructor
      · rintro ⟨hn, hg⟩
        exact ⟨hn, Or.inr ⟨hg, fun h => hf ((key_eq_iff.mp h).1 ▸ hn)⟩⟩
      · rintro ⟨hn, rfl | ⟨hg, -⟩⟩
        · exact absurd hn hf
        · exact ⟨hn, hg⟩

/-! ## In which order the keys stand -/

/-- At some point of a history the one key had been entered and the other had not. -/
def Earlier (ws : List Native) (k l : Key) : Prop :=
  ∃ before after, ws = before ++ after ∧ k ∈ before.map Native.key ∧ l ∉ before.map Native.key

theorem Earlier.concat {ws : List Native} {k l : Key} (h : Earlier ws k l) (f : Native) :
    Earlier (ws ++ [f]) k l := by
  obtain ⟨before, after, rfl, hk, hl⟩ := h
  exact ⟨before, after ++ [f], List.append_assoc _ _ _, hk, hl⟩

/-- Of two keys at most one is earlier than the other. -/
theorem Earlier.asymm {ws : List Native} {k l : Key} (h : Earlier ws k l) :
    ¬ Earlier ws l k := by
  rintro ⟨before', after', heq', hl', hk'⟩
  obtain ⟨before, after, heq, hk, hl⟩ := h
  -- of two beginnings of one history, one is a beginning of the other
  have hpre : before <+: ws := ⟨after, heq.symm⟩
  have hpre' : before' <+: ws := ⟨after', heq'.symm⟩
  rcases List.prefix_or_prefix_of_prefix hpre hpre' with hle | hle
  · exact hk' ((hle.map Native.key).subset hk)
  · exact hl ((hle.map Native.key).subset hl')

theorem map_key_block (ws : List Native) (name : String) :
    (block ws name).map Native.key = ((block ws name).map Native.kinds).map (Key.mk name) := by
  rw [List.map_map]
  refine List.map_congr_left fun g hg => ?_
  rw [Native.key, name_eq_of_mem_block hg]
  rfl

/-- **The overloads of a name stand in the order in which their keys were first entered.** -/
theorem pairwise_earlier_block (ws : List Native) (name : String) :
    (block ws name).Pairwise fun f g => Earlier ws f.key g.key := by
  suffices h : ((block ws name).map Native.key).Pairwise (Earlier ws) from
    List.pairwise_map.mp h
  induction ws using List.reverseRecOn with
  | nil => exact List.Pairwise.nil
  | append_singleton ws f ih =>
    have hold : ((block ws name).map Native.key).Pairwise (Earlier (ws ++ [f])) :=
      ih.imp fun h => h.concat f
    by_cases hf : f.name = name
    · subst hf
      rw [map_key_block, block_concat_self, map_kinds_amend]
      split
      · rw [← map_key_block]
        exact hold
      · rename_i hk
        rw [List.map_append, ← map_key_block]
        refine List.pairwise_append.mpr ⟨hold, List.pairwise_singleton _ _, fun k hk' l hl => ?_⟩
        rw [List.map_singleton, List.mem_singleton] at hl
        obtain ⟨g, hg, rfl⟩ := List.mem_map.mp hk'
        have hg' := mem_block_iff.mp hg
        refine ⟨ws, [f], rfl, List.mem_map_of_mem hg'.2.mem, ?_⟩
        rw [hl]
        intro hmem
        obtain ⟨x, hx, hxk⟩ := List.mem_map.mp hmem
        -- the key would have a last function, which stands among the overloads
        obtain ⟨y, hy, hyk⟩ := exists_latest hx
        have hyf := key_eq_iff.mp (hyk.trans hxk)
        exact hk (hyf.2 ▸ List.mem_map_of_mem (mem_block_iff.mpr ⟨hyf.1, hy⟩))
    · rw [block_concat_of_ne _ hf]
      exact hold

end Table
end ScriptHost
