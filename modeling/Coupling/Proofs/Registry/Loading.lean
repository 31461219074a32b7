/-
Each name and each path is taken once.

A registry only grows: modules come after those that are there, and a path that
was tried stays tried, whatever is added, loaded, indexed or asked
(`actAll_grows`). A load leaves every path that it reads tried, be the module new,
known by its name or not to be had (`takeCandidates_settled`). So no later load
reads the path again, and one that finds no other paths changes nothing
(`load_of_tried`).
-/
import Coupling.Proofs.Registry.LoadOrder

namespace Coupling

theorem PathSet.contains_add {s : PathSet} {p q : String} :
    (s.add p).contains q = true ↔ Path.key q = Path.key p ∨ s.contains q = true :=
  SortedMap.contains_alter_iff

/-- A source makes one candidate of each path, in order, and says of which. -/
def ModuleSource.Faithful (s : ModuleSource) : Prop := ∀ paths, (s.load paths).map (·.path) = paths

theorem ModuleSource.directory_faithful (tree : FileTree) (reader : ModuleReader) (deep : Bool) :
    (directory tree reader deep).Faithful := by
  intro paths
  simp [directory, Function.comp_def]

namespace Registry

/-! ## One candidate -/

/-- The three ways a candidate can come out. -/
theorem takeCandidate_cases (g : Registry) (added : List Module) (c : LoadCandidate) :
    (∃ e, c.module = .error e ∧ (g.takeCandidate added c).value =
      ({ g with failedPaths := PathSet.add g.failedPaths c.path }, added)) ∨
    ∃ m, c.module = .ok m ∧
      ((g.containsModule m.name = true ∧ (g.takeCandidate added c).value =
        ({ g with loadedPaths := PathSet.add g.loadedPaths c.path }, added)) ∨
      (g.containsModule m.name = false ∧ (g.takeCandidate added c).value =
        ({ g with loadedPaths := PathSet.add g.loadedPaths c.path, modules := g.modules ++ [m],
                  resolver := g.resolver.register m }, added ++ [m]))) := by
  unfold takeCandidate
  cases hm : c.module with
  | error e => exact .inl ⟨e, rfl, rfl⟩
  | ok m =>
    refine .inr ⟨m, rfl, ?_⟩
    have hsame : ({ g with loadedPaths := PathSet.add g.loadedPaths c.path } : Registry).containsModule m.name =
        g.containsModule m.name := rfl
    cases hknown : g.containsModule m.name with
    | true =>
      refine .inl ⟨rfl, ?_⟩
      simp [register, hsame, hknown]
    | false =>
      refine .inr ⟨rfl, ?_⟩
      simp [register, hsame, hknown]

/-- What was read from a path is taken in: the path is among those loaded, and a module of that name is there,
or the path is among those that failed. -/
structure Settled (g : Registry) (c : LoadCandidate) : Prop where
  loaded : ∀ m, c.module = .ok m → PathSet.contains g.loadedPaths c.path = true ∧ g.containsModule m.name = true
  failed : ∀ e, c.module = .error e → PathSet.contains g.failedPaths c.path = true

theorem takeCandidate_settled (g : Registry) (added : List Module) (c : LoadCandidate) :
    Settled (g.takeCandidate added c).value.1 c := by
  rcases g.takeCandidate_cases added c with ⟨e, he, hvalue⟩ | ⟨m, hm, ⟨hknown, hvalue⟩ | ⟨-, hvalue⟩⟩
  · rw [hvalue]
    exact ⟨by simp [he], fun _ _ => PathSet.contains_add.2 (.inl rfl)⟩
  · rw [hvalue]
    refine ⟨fun m' hm' => ⟨PathSet.contains_add.2 (.inl rfl), ?_⟩, by simp [hm]⟩
    obtain rfl := Except.ok.inj (hm.symm.trans hm')
    exact hknown
  · rw [hvalue]
    refine ⟨fun m' hm' => ⟨PathSet.contains_add.2 (.inl rfl), ?_⟩, by simp [hm]⟩
    obtain rfl := Except.ok.inj (hm.symm.trans hm')
    simp [containsModule]

/-! ## Growth -/

/-- Modules come after those that are there, and paths stay where they are. -/
structure Grows (g g' : Registry) : Prop where
  modules : g.modules <+: g'.modules
  loaded : ∀ p, PathSet.contains g.loadedPaths p = true → PathSet.contains g'.loadedPaths p = true
  failed : ∀ p, PathSet.contains g.failedPaths p = true → PathSet.contains g'.failedPaths p = true

theorem Grows.refl (g : Registry) : Grows g g := ⟨List.prefix_refl _, fun _ => id, fun _ => id⟩

theorem Grows.trans {g g' g'' : Registry} (h : Grows g g') (h' : Grows g' g'') : Grows g g'' :=
  ⟨h.modules.trans h'.modules, fun p hp => h'.loaded p (h.loaded p hp), fun p hp => h'.failed p (h.failed p hp)⟩

theorem Grows.containsModule {g g' : Registry} (h : Grows g g') {name : String}
    (hname : g.containsModule name = true) : g'.containsModule name = true := by
  obtain ⟨m, hm, heq⟩ := List.any_eq_true.1 hname
  exact List.any_eq_true.2 ⟨m, h.modules.subset hm, heq⟩

theorem Grows.settled {g g' : Registry} (h : Grows g g') {c : LoadCandidate} (hc : g.Settled c) : g'.Settled c where
  loaded m hm := ⟨h.loaded _ (hc.loaded m hm).1, h.containsModule (hc.loaded m hm).2⟩
  failed e he := h.failed _ (hc.failed e he)

theorem takeCandidate_grows (g : Registry) (added : List Module) (c : LoadCandidate) :
    Grows g (g.takeCandidate added c).value.1 := by
  rcases g.takeCandidate_cases added c with ⟨e, -, hvalue⟩ | ⟨m, -, ⟨-, hvalue⟩ | ⟨-, hvalue⟩⟩
  · rw [hvalue]
    exact ⟨List.prefix_refl _, fun _ => id, fun _ hp => PathSet.contains_add.2 (.inr hp)⟩
  · rw [hvalue]
    exact ⟨List.prefix_refl _, fun _ hp => PathSet.contains_add.2 (.inr hp), fun _ => id⟩
  · rw [hvalue]
    exact ⟨List.prefix_append _ _, fun _ hp => PathSet.contains_add.2 (.inr hp), fun _ => id⟩

theorem takeCandidates_grows (g : Registry) (added : List Module) (cs : List LoadCandidate) :
    Grows g (g.takeCandidates added cs).value.1 := by
  induction cs generalizing g added with
  | nil => exact .refl g
  | cons c cs ih => exact (g.takeCandidate_grows added c).trans (ih _ _)

/-- All candidates are taken in. -/
theorem takeCandidates_settled (g : Registry) (added : List Module) (cs : List LoadCandidate) :
    ∀ c ∈ cs, Settled (g.takeCandidates added cs).value.1 c := by
  induction cs generalizing g added with
  | nil => simp
  | cons c cs ih =>
    refine List.forall_mem_cons.2 ⟨?_, ih _ _⟩
    exact (takeCandidates_grows _ _ cs).settled (g.takeCandidate_settled added c)

theorem mem_takeCandidate {g : Registry} {added : List Module} {c : LoadCandidate} {m : Module}
    (hm : m ∈ (g.takeCandidate added c).value.2) : m ∈ added ∨ c.module = .ok m := by
  rcases g.takeCandidate_cases added c with ⟨e, -, hvalue⟩ | ⟨m', hread, ⟨-, hvalue⟩ | ⟨-, hvalue⟩⟩
  · rw [hvalue] at hm
    exact .inl hm
  · rw [hvalue] at hm
    exact .inl hm
  · rw [hvalue] at hm
    rcases List.mem_append.1 hm with hm | hm
    · exact .inl hm
    · exact .inr (List.mem_singleton.1 hm ▸ hread)

/-- What is listed besides was read. -/
theorem mem_takeCandidates {g : Registry} {added : List Module} {cs : List LoadCandidate} {m : Module}
    (hm : m ∈ (g.takeCandidates added cs).value.2) : m ∈ added ∨ ∃ c ∈ cs, c.module = .ok m := by
  induction cs generalizing g added with
  | nil => exact .inl hm
  | cons c cs ih =>
    rcases ih hm with hm | ⟨c', hc', hread⟩
    · exact (mem_takeCandidate hm).imp id fun hread => ⟨c, by simp, hread⟩
    · exact .inr ⟨c', by simp [hc'], hread⟩

/-! ## Loads -/

/-- Whether a path was read before, with success or not. -/
def tried (g : Registry) (p : String) : Bool :=
  PathSet.contains g.failedPaths p || PathSet.contains g.loadedPaths p

theorem Grows.tried {g g' : Registry} (h : Grows g g') {p : String} (hp : g.tried p = true) : g'.tried p = true := by
  simp only [Registry.tried, Bool.or_eq_true] at hp ⊢
  exact hp.imp (h.failed p) (h.loaded p)

theorem Settled.tried {g : Registry} {c : LoadCandidate} (h : g.Settled c) : g.tried c.path = true := by
  rw [Registry.tried, Bool.or_eq_true]
  cases hm : c.module with
  | error e => exact .inl (h.failed e hm)
  | ok m => exact .inr (h.loaded m hm).1

/-- Paths that differ in idle pieces only are the same. -/
theorem tried_congr {g : Registry} {p q : String} (h : Path.key q = Path.key p) : g.tried q = g.tried p := by
  simp only [tried, PathSet.contains, h]

theorem mem_newPaths {g : Registry} {paths : List String} {p : String} :
    p ∈ g.newPaths paths ↔ p ∈ paths ∧ g.tried p = false := by
  simp [newPaths, tried, Bool.or_eq_false_iff]

variable {g : Registry} {source : ModuleSource} {path : String} {masks paths : List String}

theorem load_of_ok (hpaths : (source.candidates path masks).value = .ok paths) :
    let taken := (g.takeCandidates [] (source.load (g.newPaths paths))).value
    (g.load source path masks).value = .ok (taken.2, taken.1.refresh taken.2) := by
  simp [load, hpaths]

theorem load_of_error {e : Error} (he : (source.candidates path masks).value = .error e) :
    (g.load source path masks).value = .error e := by
  simp [load, he]

/-- A load looks at what a source makes of the new paths, and of no others. -/
theorem load_congr {other : ModuleSource} (hlists : other.candidates path masks = source.candidates path masks)
    (hpaths : (source.candidates path masks).value = .ok paths)
    (hreads : other.load (g.newPaths paths) = source.load (g.newPaths paths)) :
    g.load other path masks = g.load source path masks := by
  simp only [load, bind, Logged.andThen, hlists, hpaths, hreads]

/-- A load that finds no new paths changes nothing. -/
theorem load_of_tried (hsource : source.Faithful) (hpaths : (source.candidates path masks).value = .ok paths)
    (htried : ∀ p ∈ paths, g.tried p = true) : (g.load source path masks).value = .ok ([], g) := by
  have hnone : g.newPaths paths = [] := by
    refine List.eq_nil_iff_forall_not_mem.2 fun p hp => ?_
    obtain ⟨hmem, hnew⟩ := mem_newPaths.1 hp
    simp [htried p hmem] at hnew
  have hload : source.load [] = [] := List.map_eq_nil_iff.1 (hsource [])
  rw [load_of_ok hpaths, hnone, hload]
  rfl

/-- A load takes in what is read from the new paths, lists the modules that it adds and makes all paths tried. -/
theorem load_settled (hsource : source.Faithful) (hpaths : (source.candidates path masks).value = .ok paths) :
    ∃ added g', (g.load source path masks).value = .ok (added, g') ∧ g'.modules = g.modules ++ added ∧
      (∀ m ∈ added, ∃ c ∈ source.load (g.newPaths paths), c.module = .ok m) ∧
      (∀ c ∈ source.load (g.newPaths paths), g'.Settled c) ∧ ∀ p ∈ paths, g'.tried p = true := by
  have hgrows := g.takeCandidates_grows [] (source.load (g.newPaths paths))
  have hsettled := g.takeCandidates_settled [] (source.load (g.newPaths paths))
  obtain ⟨ms, hmodules, hadded⟩ := (g.takeCandidates_takes [] (source.load (g.newPaths paths))).new
  refine ⟨_, _, load_of_ok hpaths, ?_, fun m hm => (mem_takeCandidates hm).resolve_left List.not_mem_nil,
    fun c hc => ⟨(hsettled c hc).loaded, (hsettled c hc).failed⟩, fun p hp => ?_⟩
  · rw [hadded, List.nil_append]
    exact hmodules
  · cases htried : g.tried p with
    | true => exact hgrows.tried htried
    | false =>
      have hnew : p ∈ (source.load (g.newPaths paths)).map (·.path) := by
        rw [hsource]
        exact mem_newPaths.2 ⟨hp, htried⟩
      obtain ⟨c, hc, rfl⟩ := List.mem_map.1 hnew
      exact (hsettled c hc).tried

/-! ## Acts, one after the other -/

/-- A change of a registry, or a call, which changes what its resolver remembers. -/
inductive Act where
  | change (c : Change)
  | call (c : Call)

def act (g : Registry) : Act → Registry
  | .change c => g.change c
  | .call c => g.call c

/-- The registry after acts, one after the other. -/
def actAll (g : Registry) (acts : List Act) : Registry := acts.foldl act g

/-- The paths that an act gives to a source to be read. -/
def passed (g : Registry) : Act → List String
  | .change (.load source path masks) =>
    match (source.candidates path masks).value with
    | .ok paths => g.newPaths paths
    | .error _ => []
  | _ => []

theorem not_tried_of_passed {a : Act} {p : String} (hp : p ∈ g.passed a) : g.tried p = false := by
  unfold passed at hp
  split at hp
  · split at hp
    · exact (mem_newPaths.1 hp).2
    · cases hp
  · cases hp

theorem change_grows (g : Registry) (c : Change) : Grows g (g.change c) := by
  cases c with
  | add m =>
    simp only [change]
    cases hadd : g.add m with
    | none => exact .refl g
    | some g' =>
      obtain ⟨g₁, hregister, rfl⟩ := Option.map_eq_some_iff.1 hadd
      obtain ⟨-, rfl⟩ := register_eq_some hregister
      exact ⟨List.prefix_append _ _, fun _ => id, fun _ => id⟩
  | load source path masks =>
    simp only [change]
    cases hpaths : (source.candidates path masks).value with
    | error e =>
      rw [load_of_error hpaths]
      exact .refl g
    | ok paths =>
      rw [load_of_ok hpaths]
      have hgrows := g.takeCandidates_grows [] (source.load (g.newPaths paths))
      exact ⟨hgrows.modules, hgrows.loaded, hgrows.failed⟩
  | refreshAll => exact ⟨List.prefix_refl _, fun _ => id, fun _ => id⟩

/-- **One act.** -/
theorem act_grows (g : Registry) (a : Act) : Grows g (g.act a) := by
  cases a with
  | change c => exact g.change_grows c
  | call c =>
    obtain ⟨s, -, hcall⟩ := g.call_eq c
    simp only [act, hcall]
    exact ⟨List.prefix_refl _, fun _ => id, fun _ => id⟩

/-- **All acts.** -/
theorem actAll_grows (g : Registry) (acts : List Act) : Grows g (g.actAll acts) := by
  induction acts generalizing g with
  | nil => exact .refl g
  | cons a acts ih => exact (g.act_grows a).trans (ih _)

/-- Modules stay named apart. -/
theorem actAll_apart (h : (g.modules.map Module.name).Nodup) (acts : List Act) :
    ((g.actAll acts).modules.map Module.name).Nodup := by
  induction acts generalizing g with
  | nil => exact h
  | cons a acts ih =>
    refine ih ?_
    cases a with
    | change c =>
      exact change_induct (P := fun g => (g.modules.map Module.name).Nodup) (fun h htakes => htakes.apart h)
        (fun h => h) h c
    | call c =>
      obtain ⟨s, -, hcall⟩ := g.call_eq c
      simp only [act, hcall]
      exact h

/-- **Each name and each path is taken once.** Whatever was added, loaded, indexed and asked before:
- modules are named apart, and stay as they are and in their order, whatever comes after;
- if the files cannot be listed, a load fails and leaves the registry;
- else it adds the modules that it gives after those that were there. What is read of the new paths, and of no
others, is taken in;
- all listed paths are tried then, so none of them is given to a source again, and a load that lists no others
gives nothing and leaves the registry, whatever came in between. -/
theorem load_once (before after : List Act) {source : ModuleSource} (hsource : source.Faithful) (path : String)
    (masks : List String) :
    let g := empty.actAll before
    ((g.modules.map Module.name).Nodup ∧ g.modules <+: (g.actAll after).modules) ∧
      (∀ e, (source.candidates path masks).value = .error e → (g.load source path masks).value = .error e ∧
        g.act (.change (.load source path masks)) = g) ∧
      ∀ paths, (source.candidates path masks).value = .ok paths →
        ∃ added g', (g.load source path masks).value = .ok (added, g') ∧
          g.act (.change (.load source path masks)) = g' ∧ g'.modules = g.modules ++ added ∧
          (∀ m ∈ added, ∃ c ∈ source.load (g.passed (.change (.load source path masks))), c.module = .ok m) ∧
          (∀ c ∈ source.load (g.passed (.change (.load source path masks))), g'.Settled c) ∧
          (∀ other : ModuleSource, other.candidates path masks = source.candidates path masks →
            other.load (g.passed (.change (.load source path masks))) =
              source.load (g.passed (.change (.load source path masks))) →
            g.load other path masks = g.load source path masks) ∧
          (∀ p ∈ paths, g'.tried p = true ∧
            ∀ a, ∀ q ∈ (g'.actAll after).passed a, Path.key q ≠ Path.key p) ∧
          ∀ again path' masks' paths', again.Faithful → (again.candidates path' masks').value = .ok paths' →
            (∀ q ∈ paths', ∃ p ∈ paths, Path.key q = Path.key p) →
            ((g'.actAll after).load again path' masks').value = .ok ([], g'.actAll after) := by
  intro g
  have hapart : (g.modules.map Module.name).Nodup := actAll_apart (g := empty) List.nodup_nil before
  refine ⟨⟨hapart, (g.actAll_grows after).modules⟩, fun e he => ?_, fun paths hpaths => ?_⟩
  · exact ⟨load_of_error he, by simp [act, change, load_of_error he]⟩
  · obtain ⟨added, g', hload, hmodules, hread, hsettled, htried⟩ := load_settled (g := g) hsource hpaths
    have hpassed : g.passed (.change (.load source path masks)) = g.newPaths paths := by simp [passed, hpaths]
    have hlater : ∀ p ∈ paths, (g'.actAll after).tried p = true := fun p hp =>
      (g'.actAll_grows after).tried (htried p hp)
    rw [hpassed]
    refine ⟨added, g', hload, by simp [act, change, hload], hmodules, hread, hsettled,
      fun other hlists hreads => load_congr hlists hpaths hreads, fun p hp => ⟨htried p hp, fun a q hq hkey => ?_⟩,
      fun again path' masks' paths' hagain hpaths' hsame => ?_⟩
    · have hnew := not_tried_of_passed hq
      rw [tried_congr hkey, hlater p hp] at hnew
      cases hnew
    · refine load_of_tried hagain hpaths' fun q hq => ?_
      obtain ⟨p, hp, hkey⟩ := hsame q hq
      rw [tried_congr hkey]
      exact hlater p hp

/-- Tea, a file of nothing and goods. -/
def shelves : FileTree := .directory [("tea", .file [1]), ("jam", .file []), ("goods", .file [2])]

def byFirstOctet : ModuleReader := fun _ octets =>
  .ok { name := if octets.head? = some 1 then "Tea" else "Goods", types := [] }

/-- Lists tea under two names, of which the second can only be that of a directory. -/
def pantry : ModuleSource :=
  { ModuleSource.directory shelves byFirstOctet false with
    candidates := fun _ _ => return .ok ["tea", "jam", "tea/", "goods"] }

theorem load_once_pantry :
    ∃ added g', ((empty.actAll [.change (.add goods)]).load pantry "" []).value = .ok (added, g') ∧
      added.map Module.name = ["Tea"] ∧ g'.modules.map Module.name = ["Goods", "Tea"] ∧
      g'.loadedPaths.values = ["goods", "tea"] ∧ g'.failedPaths.values = ["jam", "tea/"] ∧
      (g'.actAll [.call (.resolve apple)]).resolver.cachedTypes = 1 ∧
      ((g'.actAll [.call (.resolve apple)]).load pantry "" []).value = .ok ([], g'.actAll [.call (.resolve apple)]) := by
  have hfaithful : pantry.Faithful := ModuleSource.directory_faithful shelves byFirstOctet false
  have hpaths : (pantry.candidates "" []).value = .ok ["tea", "jam", "tea/", "goods"] := rfl
  obtain ⟨-, -, hok⟩ := load_once [.change (.add goods)] [.call (.resolve apple)] hfaithful "" []
  obtain ⟨added, g', hload, -, -, -, -, -, -, hagain⟩ := hok _ hpaths
  have hseen : ((empty.actAll [.change (.add goods)]).load pantry "" []).value.toOption.map (fun x =>
      (x.1.map Module.name, x.2.modules.map Module.name, x.2.loadedPaths.values, x.2.failedPaths.values,
        (x.2.actAll [.call (.resolve apple)]).resolver.cachedTypes)) =
      some (["Tea"], ["Goods", "Tea"], ["goods", "tea"], ["jam", "tea/"], 1) := by decide +kernel
  rw [hload] at hseen
  simp only [Except.toOption, Option.map_some, Option.some.injEq, Prod.mk.injEq] at hseen
  obtain ⟨hadded, hmodules, hloaded, hfailed, hcached⟩ := hseen
  refine ⟨added, g', hload, hadded, hmodules, hloaded, hfailed, hcached, ?_⟩
  exact hagain pantry "" [] _ hfaithful hpaths fun q hq => ⟨q, hq, rfl⟩

end Registry

end Coupling
