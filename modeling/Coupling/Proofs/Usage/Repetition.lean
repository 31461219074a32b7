/-
Asking again changes nothing.

A computation that only asks a resolver finds its way by the answers it gets. Each
of them is kept, so when it is done again, it gets the same answers on the way, gives
the same and adds nothing to what is kept (`Asks.repeats`). The two runs go in step
because of the keeping alone: references may share keys, nest as deep as they like,
and be answered by whatever was kept before. So a search for usages that is made a
second time, at once or after any other calls, finds the same relations in the same
order (`usages_again`).
-/
import Coupling.Proofs.Registry.LoadOrder
import Coupling.Proofs.Resolution.Permanence

namespace Coupling

namespace Resolving

open Resolver

variable {α β : Type} {q : Resolving α}

/-! ## Runs that repeat -/

/-- What is kept stays, and from a resolver that keeps what the computation left it gives what it gave and
changes nothing. -/
structure Repeats (q : Resolving α) : Prop where
  keeps : Respects Keeps q
  again : ∀ s t, Keeps (q.after s) t → q.result t = q.result s ∧ q.after t = t

theorem repeats_pure (a : α) : Repeats (pure a) := ⟨keeps_chains.refl, fun _ _ _ => ⟨rfl, rfl⟩⟩

theorem repeats_log (e : Event) : Repeats (liftM (Logged.log e)) := ⟨keeps_chains.refl, fun _ _ _ => ⟨rfl, rfl⟩⟩

/-- Two runs of one computation after the other go in step. -/
theorem Repeats.bind {f : α → Resolving β} (hq : Repeats q) (hf : ∀ a, Repeats (f a)) : Repeats (q >>= f) where
  keeps := Respects.bind keeps_chains hq.keeps fun a => (hf a).keeps
  again s t h := by
    rw [after_bind] at h
    -- what the first part left is kept by the second part, and so from then on
    have hfirst : Keeps (q.after s) t := keeps_chains.trans _ _ _ ((hf _).keeps _) h
    obtain ⟨hresult, hafter⟩ := hq.again s t hfirst
    rw [result_bind, after_bind, result_bind, hresult, hafter]
    exact (hf _).again _ t h

theorem resolve_repeats (r : TypeRef) : Repeats (resolve r) where
  keeps := resolve_keeps r
  again s _ h := resolve_of_kept (h.types _ _ (kept_after_resolve r s))

theorem resolveMethod_repeats (m : MethodRef) : Repeats (resolveMethod m) where
  keeps := resolveMethod_keeps m
  again s _ h := resolveMethod_of_kept (h.methods _ _ (kept_after_resolveMethod m s))

/-- **A computation that only asks repeats.** -/
theorem Asks.repeats (h : Asks q) : Repeats q := by
  induction h with
  | pure a => exact repeats_pure a
  | log e => exact repeats_log e
  | bind _ _ ihq ihf => exact ihq.bind ihf
  | resolve r => exact resolve_repeats r
  | resolveMethod m => exact resolveMethod_repeats m

end Resolving

namespace Registry

open Resolver Resolving

/-! ## Calls -/

/-- A call asks the resolver and leaves the rest of the registry. -/
theorem call_asks (g : Registry) (c : Call) :
    ∃ (α : Type) (q : Resolving α), q.Asks ∧ g.call c = { g with resolver := q.after g.resolver } := by
  cases c with
  | resolve r => exact ⟨_, _, .resolve r, rfl⟩
  | resolveMethod m => exact ⟨_, _, .resolveMethod m, rfl⟩
  | usages o seeds => exact ⟨_, _, Usage.findUsages_asks g o seeds, rfl⟩
  | dependencyGraph o entries => exact ⟨_, _, Usage.findUsages_asks g o _, rfl⟩
  | entryPoints patterns => exact ⟨_, _, .pure (), rfl⟩

/-- Calls leave all of a registry but what is kept, which grows. -/
theorem calls_keep (g : Registry) (cs : List Call) :
    ∃ s, Keeps g.resolver s ∧ SameModules g.resolver s ∧ cs.foldl call g = { g with resolver := s } := by
  induction cs generalizing g with
  | nil => exact ⟨g.resolver, keeps_chains.refl _, rfl, rfl⟩
  | cons c cs ih =>
    obtain ⟨_, q, hq, hcall⟩ := g.call_asks c
    obtain ⟨s, hkeeps, hmodules, hcalls⟩ := ih (g.call c)
    rw [hcall] at hkeeps hmodules hcalls
    refine ⟨s, keeps_chains.trans _ _ _ (hq.repeats.keeps g.resolver) hkeeps, ?_, ?_⟩
    · exact sameModules_chains.trans _ _ _ (hq.respects sameModules_asking g.resolver) hmodules
    · rw [List.foldl_cons, hcall, hcalls]

/-- **A search that is made again finds the same.** In any registry, whatever its resolver keeps, a search for
usages is made a second time after any calls, none of which changes the modules. It gives the same relations in
the same order, and it leaves the registry as it is. -/
theorem usages_again (g : Registry) (o : Options) (seeds : List TypeRef) (between : List Call) :
    let first := (g.usages o seeds).value
    let later := between.foldl call first.2
    (later.usages o seeds).value = (first.1, later) := by
  intro first later
  obtain ⟨t, hkeeps, hsame, hlater⟩ := calls_keep first.2 between
  have hrepeats := (Usage.findUsages_asks g o seeds).repeats
  obtain ⟨hresult, hafter⟩ := hrepeats.again g.resolver t hkeeps
  have hstate : later = { g with resolver := t } := hlater
  have hmodules : t.modules = g.resolver.modules := hsame.trans (findUsages_sameModules g o seeds g.resolver)
  -- the second search asks the same questions, now of `t`
  have hsecond : later.findUsages o seeds = g.findUsages o seeds :=
    findUsages_congr (congrArg (·.index.interfaces) hstate) ((congrArg (·.resolver.modules) hstate).trans hmodules)
      (congrArg (·.references.length) hstate) o seeds
  have hvalue : (later.usages o seeds).value =
      ((g.findUsages o seeds).result t, { g with resolver := (g.findUsages o seeds).after t }) := by
    rw [usages, hsecond, hstate]
    rfl
  rw [hvalue, hresult, hafter, hstate]
  rfl

end Registry

end Coupling
