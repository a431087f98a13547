/-
What a reload does with each service.

The plan goes through the services of the compose file and asks for each of them in turn;
what it leaves out of the services whose mounts changed is recreated in place.  Both are
read off different data, and no service falls through or is treated twice.

* `plan_exact` — which services the plan contains, with which containers;
* `main_partition` — a run that answers 0 has handed off, or else force-recreated, each
  service whose mounts changed, and has done so once.
-/
import KrgInfra.ReloadMigrations
import KrgInfra.ReloadHistory
import KrgInfra.Dict

namespace Compose

/-! ### The plan -/

/-- No call of the plan fails, and nobody else touches the containers while it is made. -/
structure Undisturbed (env : ComposeEnv) : Prop where
  ok : ∀ i, i.planning = true → env.outcome i = .ok
  still : ∀ i w, i.planning = true →
    (env.before i w).container = w.container ∧ (env.before i w).order = w.order

/-- The containers are those of `w`. -/
def SameContainers (w w' : Docker) : Prop := w'.container = w.container ∧ w'.order = w.order

/-- The names of the containers, with their services, as `ps --all` lists them. -/
def Docker.names (w : Docker) : List (String × String) :=
  w.order.filterMap fun i => (w.container i).map fun c => (c.name, c.service)

/-- The services that compose reports as changed: those of the containers that it would
recreate. -/
def reported (env : ComposeEnv) (w : Docker) : List String := servicesOf env.recreateNames w.names

/-- A service that is to be handed off, from its one container `c`. -/
structure ToHandOff (env : ComposeEnv) (w : Docker) (forced : List String) (svc c : String) :
    Prop where
  labelled : ((env.specs.lookup svc).getD {}).labelled = true
  eligible : ineligible ((env.specs.lookup svc).getD {}) = none
  single : w.ids svc false = [c]
  changed : svc ∈ reported env w ∨ svc ∈ forced
  settled : Settled env.specs w svc

section Plan

variable {env : ComposeEnv} {w : Docker}

theorem SameContainers.ids {w' : Docker} (h : SameContainers w w') (svc : String) (all : Bool) :
    w'.ids svc all = w.ids svc all := by
  rw [Docker.ids, Docker.ids, h.1, h.2]

theorem SameContainers.names {w' : Docker} (h : SameContainers w w') : w'.names = w.names := by
  rw [Docker.names, Docker.names, h.1, h.2]

variable (hu : Undisturbed env)

include hu

theorem sameContainers_before {i : Site} (hi : i.planning = true) {w' : Docker}
    (h : SameContainers w w') : SameContainers w (env.toEnv.before i w') :=
  ⟨(hu.still i w' hi).1.trans h.1, (hu.still i w' hi).2.trans h.2⟩

/-- The rule for a call of the plan that reads what is told by the containers. -/
theorem stillSee_rule {α : Type} {i : Site} (hi : i.planning = true)
    {f : Docker → Except Fault (α × List Event)} {a : α}
    (hf : ∀ w', SameContainers w w' → ∃ es, f w' = .ok (a, es)) :
    Triple (fun _ => True) (SameContainers w) (docker env i (see f))
      (fun b w' => b = a ∧ SameContainers w w') fun _ _ => False := by
  refine Triple.of_call (SameContainers w)
    (fun w' _ h => ⟨trivial, sameContainers_before hu hi h⟩) (fun w' _ h => ⟨trivial, ?_⟩)
    fun e done w' ho _ _ => absurd ((hu.ok i hi).symm.trans ho) (by simp)
  obtain ⟨es, hes⟩ := hf w' h
  simp only [see, hes]
  exact ⟨trivial, h⟩

/-- The rule for a command that only fetches images. -/
theorem stillFetch_rule {i : Site} (hi : i.planning = true) (l : List String) :
    Triple (fun _ => True) (SameContainers w)
      (docker env i (work fun w => { w with images := w.images ++ l }))
      (fun _ => SameContainers w) fun _ _ => False :=
  Triple.of_call (SameContainers w) (fun _ _ h => ⟨trivial, sameContainers_before hu hi h⟩)
    (fun _ _ h => ⟨trivial, h⟩) fun _ _ _ ho _ _ => absurd ((hu.ok i hi).symm.trans ho) (by simp)

theorem stillPs_rule {i : Site} (hi : i.planning = true) (svc : String) (all : Bool) :
    Triple (fun _ => True) (SameContainers w) (ps env i svc all)
      (fun l w' => l = w.ids svc all ∧ SameContainers w w') fun _ _ => False :=
  stillSee_rule hu hi fun w' h => ⟨[.listed svc (w'.ids svc all)], by rw [h.ids]⟩

/-- The images of containers that are there. -/
theorem stillImages_rule (svc dep : String) : ∀ {ids : List String},
    (∀ id ∈ ids, w.container id ≠ none) →
      Triple (fun _ => True) (SameContainers w) (images env svc dep ids)
        (fun l w' => l = ids.filterMap (fun id => (w.container id).map (·.image)) ∧
          SameContainers w w') fun _ _ => False := by
  intro ids
  induction ids with
  | nil => exact fun _ => Triple.pure fun _ _ h => ⟨rfl, h⟩
  | cons c cs ih =>
    intro hids
    obtain ⟨hc, hcs⟩ := List.forall_mem_cons.mp hids
    obtain ⟨k, hk⟩ := Option.ne_none_iff_exists'.mp hc
    unfold images
    refine Triple.bind (Q := fun a w' => a = k.image ∧ SameContainers w w')
      (stillSee_rule hu rfl fun w' h => ⟨[], by simp only [h.1, hk]⟩) fun a => Triple.of_fact ?_
    rintro rfl
    refine (ih hcs).bind fun l => Triple.of_fact ?_
    rintro rfl
    refine Triple.pure fun _ _ h => ⟨?_, h⟩
    rw [List.filterMap_cons, hk]
    rfl

/-- A one-shot with a known image is found changed exactly when it is. -/
theorem stillOneshot_rule (svc dep : String) (hwant : wantedImage env.specs dep ≠ "") :
    Triple (fun _ => True) (SameContainers w)
      (oneshotChanged env svc dep (wantedImage env.specs dep))
      (fun b w' => (b = true ↔ OneshotChanged env.specs w dep) ∧ SameContainers w w')
      fun _ _ => False := by
  unfold oneshotChanged
  refine (stillPs_rule hu rfl dep true).bind fun ids => Triple.of_fact ?_
  rintro rfl
  have hids : ∀ id ∈ w.ids dep true, w.container id ≠ none := by
    intro id hid
    obtain ⟨k, hk, -⟩ := Docker.mem_ids.mp hid
    rw [hk]
    exact Option.some_ne_none k
  refine (stillImages_rule hu svc dep hids).bind fun l => Triple.of_fact ?_
  rintro rfl
  refine Triple.pure fun _ _ h => ⟨?_, h⟩
  rw [Bool.or_eq_true, decide_eq_true_eq, List.any_eq_true, OneshotChanged, and_iff_right hwant]
  have hmem : ∀ i, i ∈ (w.ids dep true).filterMap (fun id => (w.container id).map (·.image)) ↔
      ∃ id k, w.container id = some k ∧ k.service = dep ∧ k.image = i := by
    intro i
    rw [List.mem_filterMap]
    constructor
    · rintro ⟨id, hid, himg⟩
      obtain ⟨k, hk, hs, -⟩ := Docker.mem_ids.mp hid
      rw [hk, Option.map_some, Option.some_inj] at himg
      exact ⟨id, k, hk, hs, himg⟩
    · rintro ⟨id, k, hk, hs, rfl⟩
      exact ⟨id, Docker.mem_ids.mpr ⟨k, hk, hs, .inl rfl⟩, by rw [hk, Option.map_some]⟩
  refine or_congr ?_ ?_
  · -- no image was read, since there is no container
    rw [List.eq_nil_iff_forall_not_mem]
    constructor
    · intro hnone id k hk hs
      exact hnone k.image ((hmem _).mpr ⟨id, k, hk, hs, rfl⟩)
    · intro hnone i hi
      obtain ⟨id, k, hk, hs, -⟩ := (hmem i).mp hi
      exact hnone id k hk hs
  · constructor
    · rintro ⟨i, hi, hne⟩
      obtain ⟨id, k, hk, hs, rfl⟩ := (hmem i).mp hi
      exact ⟨id, k, hk, hs, of_decide_eq_true hne⟩
    · rintro ⟨id, k, hk, hs, hne⟩
      exact ⟨k.image, (hmem _).mpr ⟨id, k, hk, hs, rfl⟩, decide_eq_true hne⟩

/-- `changed_oneshots` finds none exactly when none of the service's one-shots changed. -/
theorem stillOneshots_rule (svc : String) :
    Triple (fun _ => True) (SameContainers w)
      (changed_oneshots env env.specs svc ((env.specs.lookup svc).getD {}))
      (fun pending w' => (pending = [] ↔ Settled env.specs w svc) ∧ SameContainers w w')
      fun _ _ => False := by
  have hdeps : ∀ deps, Triple (fun _ => True) (SameContainers w)
      (pendingOneshots env env.specs svc deps)
      (fun pending w' => (pending = [] ↔ ∀ dep, (dep, some "service_completed_successfully") ∈ deps →
        ¬ OneshotChanged env.specs w dep) ∧ SameContainers w w') fun _ _ => False := by
    intro deps
    induction deps with
    | nil => exact Triple.pure fun _ _ h => ⟨by simp, h⟩
    | cons d deps ih =>
      obtain ⟨dep, cond⟩ := d
      unfold pendingOneshots
      by_cases hskip : cond ≠ some "service_completed_successfully" ∨ wantedImage env.specs dep = ""
      · rw [if_pos hskip]
        refine ih.conseq (fun _ _ h => h) (fun pending w' _ h => ⟨h.1.trans ?_, h.2⟩) fun _ _ _ h => h
        constructor
        · intro hall dep' hdep' hch
          rcases List.mem_cons.mp hdep' with heq | hdep'
          · obtain ⟨rfl, rfl⟩ := Prod.mk.inj heq
            exact hch.1 (hskip.resolve_left (by simp))
          · exact hall dep' hdep' hch
        · exact fun hall dep' hdep' => hall dep' (List.mem_cons_of_mem _ hdep')
      · rw [if_neg hskip]
        rw [not_or, not_not] at hskip
        obtain ⟨rfl, hwant⟩ := hskip
        refine (stillOneshot_rule hu svc dep hwant).bind fun b => Triple.of_fact fun hb =>
          ih.bind fun pending => Triple.of_fact fun hp => Triple.pure fun _ _ h => ⟨?_, h⟩
        cases b with
        | true =>
          rw [if_pos rfl]
          refine iff_of_false (List.cons_ne_nil _ _) fun hall => ?_
          exact hall dep List.mem_cons_self (hb.mp rfl)
        | false =>
          rw [if_neg Bool.false_ne_true, hp]
          constructor
          · intro hall dep' hdep' hch
            rcases List.mem_cons.mp hdep' with heq | hdep'
            · obtain ⟨rfl, -⟩ := Prod.mk.inj heq
              exact absurd (hb.mpr hch) Bool.false_ne_true
            · exact hall dep' hdep' hch
          · exact fun hall dep' hdep' => hall dep' (List.mem_cons_of_mem _ hdep')
  unfold changed_oneshots
  refine (hdeps _).map fun pending w' _ h => ⟨Iff.trans ?_ h.1, h.2⟩
  rw [List.eq_nil_iff_forall_not_mem, List.eq_nil_iff_forall_not_mem]
  simp only [mem_sorted]

/-- The plan for one service, `changed` being what compose reported. -/
theorem stillOne_rule (forced : List String) {changed : List String} (svc : String)
    (hchanged : svc ∈ changed ↔ svc ∈ reported env w) :
    Triple (fun _ => True) (SameContainers w) (planOne env env.specs forced changed svc)
      (fun o w' => (∀ old, o = some old ↔ ∃ c, old = [c] ∧ ToHandOff env w forced svc c) ∧
        SameContainers w w') fun _ _ => False := by
  have hnone : ∀ φ : Prop, (∀ c, ToHandOff env w forced svc c → φ) → ¬ φ →
      Triple (fun _ => True) (SameContainers w) (pure none : Reload (Option (List String)))
        (fun o w' => (∀ old, o = some old ↔ ∃ c, old = [c] ∧ ToHandOff env w forced svc c) ∧
          SameContainers w w') fun _ _ => False := by
    intro φ hφ hn
    refine Triple.pure fun _ _ h => ⟨fun old => iff_of_false (by simp) ?_, h⟩
    rintro ⟨c, -, hc⟩
    exact hn (hφ c hc)
  unfold planOne
  dsimp only
  by_cases hlab : ((env.specs.lookup svc).getD {}).labelled = true
  · rw [if_pos hlab]
    refine (stillPs_rule hu rfl svc false).bind fun old => Triple.of_fact ?_
    rintro rfl
    unfold planRunning
    by_cases hold : w.ids svc false = []
    · rw [if_pos hold]
      refine hnone (w.ids svc false ≠ []) (fun c hc => ?_) (not_not.mpr hold)
      rw [hc.single]
      exact List.cons_ne_nil _ _
    rw [if_neg hold]
    by_cases hwant : svc ∉ forced ∧ svc ∉ changed
    · rw [if_pos hwant]
      refine hnone (svc ∈ changed ∨ svc ∈ forced) (fun c hc => ?_) (by tauto)
      exact hc.changed.imp_left hchanged.mpr
    rw [if_neg hwant]
    by_cases hmany : (w.ids svc false).length > 1
    · rw [if_pos hmany]
      refine hnone ((w.ids svc false).length = 1) (fun c hc => ?_) (by omega)
      rw [hc.single, List.length_singleton]
    rw [if_neg hmany]
    by_cases helig : (ineligible ((env.specs.lookup svc).getD {})).isSome = true
    · rw [if_pos helig]
      refine hnone _ (fun c hc => hc.eligible) fun hn => ?_
      rw [hn] at helig
      exact absurd helig (by simp)
    rw [if_neg helig]
    -- exactly one container runs
    obtain ⟨c, hc⟩ : ∃ c, w.ids svc false = [c] := by
      refine List.length_eq_one_iff.mp ?_
      have := List.length_pos_iff.mpr hold
      omega
    refine (stillOneshots_rule hu svc).bind fun pending => Triple.of_fact fun hp =>
      Triple.pure fun _ _ h => ⟨fun old => ?_, h⟩
    by_cases hpending : pending = []
    · rw [if_pos hpending, hc, Option.some_inj]
      constructor
      · rintro rfl
        refine ⟨c, rfl, hlab, by simpa using helig, hc, ?_, hp.mp hpending⟩
        rw [← hchanged]
        tauto
      · rintro ⟨c', rfl, hc'⟩
        exact hc.symm.trans hc'.single
    · rw [if_neg hpending]
      refine iff_of_false (by simp) ?_
      rintro ⟨c', -, hc'⟩
      exact hpending (hp.mpr hc'.settled)
  · rw [if_neg hlab]
    exact hnone _ (fun c hc => hc.labelled) hlab

theorem stillAll_rule (forced : List String) {changed : List String} (svcs : List String)
    (hchanged : ∀ svc, ((env.specs.lookup svc).getD {}).labelled = true →
      (svc ∈ changed ↔ svc ∈ reported env w)) :
    Triple (fun _ => True) (SameContainers w) (planAll env env.specs forced changed svcs)
      (fun todo w' => (∀ svc old, (svc, old) ∈ todo ↔
        svc ∈ svcs ∧ ∃ c, old = [c] ∧ ToHandOff env w forced svc c) ∧ SameContainers w w')
      fun _ _ => False := by
  induction svcs with
  | nil => exact Triple.pure fun _ _ h => ⟨by simp, h⟩
  | cons s svcs ih =>
    unfold planAll
    have hone : Triple (fun _ => True) (SameContainers w) (planOne env env.specs forced changed s)
        (fun o w' => (∀ old, o = some old ↔ ∃ c, old = [c] ∧ ToHandOff env w forced s c) ∧
          SameContainers w w') fun _ _ => False := by
      by_cases hlab : ((env.specs.lookup s).getD {}).labelled = true
      · exact stillOne_rule hu forced s (hchanged s hlab)
      · unfold planOne
        dsimp only
        rw [if_neg hlab]
        refine Triple.pure fun _ _ h => ⟨fun old => iff_of_false (by simp) ?_, h⟩
        rintro ⟨c, -, hc⟩
        exact hlab hc.labelled
    refine hone.bind fun one => Triple.of_fact fun h₁ => ih.bind fun todo => Triple.of_fact fun h₂ =>
      Triple.pure fun _ _ h => ⟨fun svc old => ?_, h⟩
    rw [List.mem_append, h₂]
    constructor
    · rintro (hmem | ⟨hmem, hc⟩)
      · obtain ⟨old', hold, heq⟩ : ∃ old', one = some old' ∧ (s, old') = (svc, old) := by
          simpa using hmem
        obtain ⟨rfl, rfl⟩ := Prod.mk.inj heq
        exact ⟨List.mem_cons_self, (h₁ old').mp hold⟩
      · exact ⟨List.mem_cons_of_mem _ hmem, hc⟩
    · rintro ⟨hmem, hc⟩
      rcases List.mem_cons.mp hmem with rfl | hmem
      · left
        rw [(h₁ old).mpr hc]
        simp
      · exact .inr ⟨hmem, hc⟩

theorem stillBuild_rule : Triple (fun _ => True) (SameContainers w) (build_missing env env.specs)
    (fun _ => SameContainers w) fun _ _ => False := by
  have hone : ∀ svc spec, Triple (fun _ => True) (SameContainers w) (missingImage env svc spec)
      (fun _ => SameContainers w) fun _ _ => False := by
    intro svc spec
    unfold missingImage has_image
    split_ifs
    · exact Triple.map (Q := fun _ => SameContainers w) (Triple.pure fun _ _ h => h) fun _ _ _ h => h
    · -- what is asked are the images
      refine Triple.map (Q := fun _ => SameContainers w) ?_ fun _ _ _ h => h
      exact Triple.of_call (SameContainers w)
        (fun _ _ h => ⟨trivial, sameContainers_before hu rfl h⟩) (fun _ _ h => ⟨trivial, h⟩)
        fun _ _ _ ho _ _ => absurd ((hu.ok _ rfl).symm.trans ho) (by simp)
    · exact Triple.pure fun _ _ h => h
  have hall : ∀ specs, Triple (fun _ => True) (SameContainers w) (missingImages env specs)
      (fun _ => SameContainers w) fun _ _ => False := by
    intro specs
    induction specs with
    | nil => exact Triple.pure fun _ _ h => h
    | cons s specs ih =>
      unfold missingImages
      exact (hone s.1 s.2).bind fun _ => ih.bind fun _ => Triple.pure fun _ _ h => h
  unfold build_missing
  refine ((hall _).map (R := fun _ => SameContainers w) fun _ _ _ h => h).bind fun todo => ?_
  show Triple _ _ (if _ then _ else _) _ _
  split_ifs
  · exact Triple.pure fun _ _ h => h
  · exact (stillFetch_rule hu rfl _).bind fun _ => Triple.pure fun _ _ h => h

/-- What compose reports of the labelled services. -/
theorem stillChanged_rule (services : List String) :
    Triple (fun _ => True) (SameContainers w) (changed_services env services)
      (fun changed w' => (services ≠ [] → changed = reported env w) ∧ SameContainers w w')
      fun _ _ => False := by
  unfold changed_services
  by_cases hservices : services = []
  · rw [if_pos hservices]
    exact Triple.pure fun _ _ h => ⟨fun hne => absurd hservices hne, h⟩
  rw [if_neg hservices]
  refine (stillFetch_rule hu rfl _).bind fun _ => ?_
  refine (stillSee_rule hu rfl (a := env.recreateNames) fun w' _ => ⟨[], rfl⟩).bind fun names =>
    Triple.of_fact ?_
  rintro rfl
  show Triple _ _ (if _ then _ else _) _ _
  by_cases hnames : env.recreateNames = []
  · rw [if_pos hnames]
    refine Triple.pure fun _ _ h => ⟨fun _ => ?_, h⟩
    rw [reported, hnames]
    rfl
  rw [if_neg hnames]
  refine (stillSee_rule hu rfl (a := w.names) fun w' h => ⟨[], ?_⟩).bind fun svc_of =>
    Triple.of_fact ?_
  · rw [← h.names]
    rfl
  · rintro rfl
    exact Triple.pure fun _ _ h => ⟨fun _ => rfl, h⟩

/-- The plan contains the services that are to be handed off, each with its container. -/
theorem plan_exact (forced : List String) :
    Triple (fun _ => True) (SameContainers w) (plan env forced)
      (fun todo _ => ∀ svc old,
        (svc, old) ∈ todo ↔ ∃ c, old = [c] ∧ ToHandOff env w forced svc c) fun _ _ => False := by
  have hmem : ∀ svc, ((env.specs.lookup svc).getD {}).labelled = true →
      svc ∈ (env.specs.filter (·.2.labelled)).map Prod.fst ∧ svc ∈ sorted (env.specs.map Prod.fst) := by
    intro svc hlab
    obtain ⟨spec, hspec⟩ : ∃ spec, env.specs.lookup svc = some spec := by
      cases hl : env.specs.lookup svc with
      | none =>
        rw [hl, Option.getD_none] at hlab
        exact absurd hlab (by decide)
      | some spec => exact ⟨spec, rfl⟩
    have hin := Dict.mem_of_lookup hspec
    rw [hspec, Option.getD_some] at hlab
    exact ⟨List.mem_map.mpr ⟨_, List.mem_filter.mpr ⟨hin, hlab⟩, rfl⟩,
      mem_sorted.mpr (List.mem_map_of_mem hin)⟩
  unfold plan
  refine (stillSee_rule hu rfl (a := env.specs) fun w' _ => ⟨[], rfl⟩).bind fun sp =>
    Triple.of_fact ?_
  rintro rfl
  refine (stillBuild_rule hu).bind fun _ => ?_
  refine (stillChanged_rule hu _).bind fun changed => Triple.of_fact fun hchanged => ?_
  refine (stillAll_rule hu forced _ fun svc hlab => ?_).conseq (fun _ _ h => h)
    (fun todo w' _ h svc old => (h.1 svc old).trans ?_) fun _ _ _ h => h
  · rw [hchanged (List.ne_nil_of_mem (hmem svc hlab).1)]
  · refine and_iff_right_of_imp ?_
    rintro ⟨c, -, hc⟩
    exact (hmem svc hc.labelled).2

end Plan

/-! ### The run -/

/-- The services that a log says were handed off. -/
def handedOff (L : List Event) : List String :=
  L.filterMap fun e =>
    match e with
    | .handed svc true => some svc
    | _ => none

/-- The services that a log says were force-recreated. -/
def recreated (L : List Event) : List String :=
  L.flatMap fun e =>
    match e with
    | .forceRecreated svcs => svcs
    | _ => []

/-- The services whose mounts changed, as `main` finds them. -/
def forcedServices (env : ComposeEnv) (content_hash : String → String) (args : Args) (w : Docker) :
    List String :=
  if args.state = true ∧ env.outcome .loadState = .ok then
    mounts_changed (w.state.bind SavedState.load)
      (mount_fingerprints content_hash env.files env.specs)
  else []

/-- A log says which services were handed off, and which recreated. -/
def Treats (hs rs : List String) (L : List Event) : Prop := handedOff L = hs ∧ recreated L = rs

/-- An event of neither kind. -/
def Event.other (e : Event) : Prop := handedOff [e] = [] ∧ recreated [e] = []

theorem Event.other_of_inner {e : Event} (h : e.inner = true) : e.other := by
  cases e with
  | handing svc old => exact absurd h Bool.false_ne_true
  | handed svc done => exact absurd h Bool.false_ne_true
  | forceRecreated svcs => exact absurd h Bool.false_ne_true
  | _ => exact ⟨rfl, rfl⟩

section Logs

variable {hs rs hs' rs' : List String} {L L' : List Event}

theorem Treats.append (h : Treats hs rs L) (h' : Treats hs' rs' L') :
    Treats (hs ++ hs') (rs ++ rs') (L ++ L') := by
  constructor
  · rw [handedOff, List.filterMap_append]
    exact congrArg₂ _ h.1 h'.1
  · rw [recreated, List.flatMap_append]
    exact congrArg₂ _ h.2 h'.2

theorem treats_of_other (h : ∀ e ∈ L, e.other) : Treats [] [] L := by
  induction L with
  | nil => exact ⟨rfl, rfl⟩
  | cons e L ih =>
    obtain ⟨he, hL⟩ := List.forall_mem_cons.mp h
    exact Treats.append (L := [e]) he (ih hL)

theorem Treats.append_other (h : Treats hs rs L) (h' : ∀ e ∈ L', e.other) :
    Treats hs rs (L ++ L') := by
  have hall := h.append (treats_of_other h')
  rwa [List.append_nil, List.append_nil] at hall

theorem Stretch.other {svc : String} {old : List String} (h : Stretch svc old L) :
    ∀ e ∈ L, e.other := by
  obtain ⟨M, rfl, hp⟩ := h
  refine List.forall_mem_cons.mpr ⟨⟨rfl, rfl⟩, fun e he => ?_⟩
  exact Event.other_of_inner (hp.inner e he).inner

end Logs

section Run

variable {env : ComposeEnv} {base : List Event}

/-- A plan names each service once. -/
theorem planAll_sublist (specs : Specs) (forced changed : List String) (svcs : List String) :
    Triple (fun _ => True) (fun _ => True) (planAll env specs forced changed svcs)
      (fun todo _ => (todo.map Prod.fst).Sublist svcs) fun _ _ => True := by
  induction svcs with
  | nil => exact Triple.pure fun _ _ _ => List.nil_sublist _
  | cons svc svcs ih =>
    unfold planAll
    refine Triple.top.bind fun one => (ih.weaken fun _ _ _ => trivial).bind fun todo =>
      Triple.pure fun _ _ h => ?_
    cases one with
    | none => exact h.cons svc
    | some old => exact h.cons_cons svc

theorem plan_nodup (hkeys : (Dict.keys env.specs).Nodup) (forced : List String) :
    Triple (fun _ => True) (fun _ => True) (plan env forced)
      (fun todo _ => (todo.map Prod.fst).Nodup) fun _ _ => True := by
  have hspecs : Triple (fun _ => True) (fun _ => True) (specs env .planConfig)
      (fun sp _ => sp = env.specs) fun _ _ => True := by
    unfold Compose.specs docker
    refine Triple.of_call (fun _ => True) ?_ ?_ ?_
    · exact fun _ _ _ => ⟨trivial, trivial⟩
    · exact fun _ _ _ => ⟨trivial, rfl⟩
    · exact fun _ _ _ _ _ _ => trivial
  unfold plan
  refine hspecs.bind fun sp => ?_
  refine Triple.weaken (P := fun _ => sp = env.specs ∧ True) (Triple.of_fact ?_) fun _ _ h => ⟨h, trivial⟩
  rintro rfl
  refine Triple.top.bind fun _ => (Triple.weaken Triple.top fun _ _ _ => trivial).bind fun changed => ?_
  refine (planAll_sublist _ _ changed _).conseq (fun _ _ _ => trivial) (fun todo _ _ h => ?_)
    fun _ _ _ h => h
  exact h.nodup ((List.perm_insertionSort _ _).nodup_iff.mpr hkeys)

/-- The handoffs, when none has failed. -/
theorem handoffs_treat (todo : List (String × List String)) :
    ∀ hs, Triple (fun _ => True) (Adds base (Treats hs [])) (handoffs env todo)
      (fun failed w => failed = [] → Adds base (Treats (hs ++ todo.map Prod.fst) []) w)
      fun _ _ => True := by
  induction todo with
  | nil =>
    refine fun hs => Triple.pure fun w _ h _ => ?_
    rwa [List.map_nil, List.append_nil]
  | cons x todo ih =>
    intro hs
    obtain ⟨svc, old⟩ := x
    unfold handoffs
    have hone : Triple (fun _ => True) (Adds base (Treats hs [])) (safe_handoff env svc old)
        (fun _ => Adds base (Treats hs [])) fun _ _ => True := by
      refine Triple.exists_pre fun M₀ => ?_
      refine Triple.weaken (P := fun w => Treats hs [] M₀ ∧ w.log = base ++ M₀)
        (Triple.of_fact fun h₀ => ?_) fun _ _ h => ⟨h.2, h.1⟩
      refine safe_handoff_log.conseq (fun _ _ h => h) (fun _ w _ h => ?_) fun _ _ _ _ => trivial
      obtain ⟨S, hS, hst⟩ := h
      exact ⟨M₀ ++ S, by rw [hS, List.append_assoc], h₀.append_other hst.other⟩
    refine hone.bind fun done => ?_
    cases done with
    | true =>
      refine Triple.bind (Q := fun _ => Adds base (Treats (hs ++ [svc]) [])) ?_ fun _ => ?_
      · refine of_say fun w _ h => ⟨trivial, ?_⟩
        obtain ⟨M, hM, hT⟩ := h
        refine ⟨M ++ [.handed svc true], by rw [Docker.log_record, hM, List.append_assoc], ?_⟩
        exact hT.append ⟨rfl, rfl⟩
      · refine (ih _).bind fun failed => Triple.pure fun w _ h hf => ?_
        have hdone := h hf
        rwa [List.append_assoc, List.singleton_append] at hdone
    | false =>
      refine Triple.bind (Q := fun _ _ => True) (Triple.weaken Triple.top fun _ _ _ => trivial)
        fun _ => ?_
      refine Triple.bind (Q := fun _ _ => True) Triple.top fun failed => Triple.pure fun _ _ _ hf => ?_
      exact absurd hf (List.cons_ne_nil _ _)

/-- What follows the handoffs: the services `recreate` are recreated, if the command
succeeds. -/
theorem finish_treat {args : Args} {hs recreate : List String}
    {mounts : List (String × List String)} :
    Triple (fun _ => True) (Adds base (Treats hs [])) (finish env args recreate mounts)
      (fun _ => Adds base (Treats hs recreate)) fun _ _ => True := by
  have hother : ∀ {i : Site} {f : Docker → Docker} {es : List Event},
      (∀ w, (f w).log = w.log ++ es) → (∀ e ∈ es, e.other) →
      Triple (fun _ => True) (Adds base (Treats hs recreate)) (docker env i (work f))
        (fun _ => Adds base (Treats hs recreate)) fun _ _ => True := by
    intro i f es hf hes
    refine (work_log hf).conseq (fun _ _ h => h) (fun _ _ _ h => h.mono ?_) fun _ _ _ _ => trivial
    rintro M ⟨M₀, h₀, rfl⟩
    exact h₀.append_other hes
  unfold finish
  refine Triple.bind (Q := fun _ => Adds base (Treats hs recreate)) ?_ fun _ =>
    Triple.bind (Q := fun _ => Adds base (Treats hs recreate)) ?_ fun _ =>
      Triple.bind (Q := fun _ => Adds base (Treats hs recreate)) ?_ fun _ =>
        Triple.pure fun _ _ h => h
  · unfold recreateInPlace
    by_cases hrec : recreate = []
    · rw [if_pos hrec, hrec]
      exact Triple.pure fun _ _ h => h
    rw [if_neg hrec]
    unfold force_recreate docker
    cases ho : env.outcome .forceRecreate with
    | raise e done => exact Triple.of_raise ho
    | ok =>
      have hreached : reachedOf env .forceRecreate recreate = recreate := by
        rw [reachedOf, ho]
      have hlog : ∀ w : Docker, ((recreate.foldl (fun w s => w.recreate s [] (newContainer env s))
          w).record [.forceRecreated recreate]).log = w.log ++ [.forceRecreated recreate] := by
        intro w
        rw [Docker.log_record, log_foldl_recreate]
      have hlast : Treats [] recreate [.forceRecreated recreate] := ⟨rfl, by simp [recreated]⟩
      rw [hreached]
      refine (work_log hlog).conseq (fun _ _ h => h) (fun _ _ _ h => h.mono ?_) fun _ _ _ _ => trivial
      rintro M ⟨M₀, h₀, rfl⟩
      have hall := h₀.append hlast
      rwa [List.append_nil, List.nil_append] at hall
  · refine hother (fun w => by rw [Docker.log_record, log_foldl_upService]; rfl) ?_
    refine List.forall_mem_append.mpr ⟨fun e he => ?_, by simp [Event.other, handedOff, recreated]⟩
    obtain ⟨s, -, rfl⟩ := List.mem_map.mp he
    cases s <;> exact ⟨rfl, rfl⟩
  · unfold record_state
    split_ifs
    · exact hother (fun _ => rfl) (by simp [Event.other, handedOff, recreated])
    · exact Triple.pure fun _ _ h => h

/-- A run that answers 0: what was planned has been handed off, and the other services whose
mounts changed have been recreated. -/
theorem main_treats (hkeys : (Dict.keys env.specs).Nodup) (content_hash : String → String)
    {args : Args} (hdry : args.dry_run = false) (w : Docker) :
    Triple (fun _ => True) (· = w) (main env content_hash args)
      (fun n w' => n = 0 → ∃ forced hs : List String,
        Adds w.log (Treats hs (sorted (forced.filter (· ∉ hs)))) w' ∧
        hs.Nodup ∧ forced.Nodup ∧ ∀ svc ∈ forcedServices env content_hash args w, svc ∈ forced)
      fun _ _ => True := by
  have hP : PlanKept env fun w' => Adds w.log Idle w' ∧ w'.state = w.state :=
    planKept_idle.and ⟨fun _ _ _ h => h, fun _ _ _ h => h, fun _ _ h => h⟩
  have hcompare := compareState_rule (S := fun prev => prev = w.state.bind SavedState.load)
    content_hash args hP fun w' h => by rw [h.2]
  have hnames : ((mount_fingerprints content_hash env.files env.specs).map Prod.fst).Nodup := by
    rwa [mount_fingerprints, List.map_map]
  unfold main
  refine Triple.bind (Q := fun (r : List String × List (String × List String)) w' =>
    (r.1.Nodup ∧ ∀ svc ∈ forcedServices env content_hash args w, svc ∈ r.1) ∧
      Adds w.log Idle w') ?_ fun r => Triple.of_fact fun hr => ?_
  · refine hcompare.conseq ?_ (fun r w' _ h => ⟨?_, h.1.1⟩) fun _ _ _ _ => trivial
    · rintro w' - rfl
      exact ⟨⟨[], by rw [List.append_nil], fun e he => absurd he List.not_mem_nil⟩, rfl⟩
    cases hargs : args.state with
    | false =>
      rw [h.2.2 hargs, forcedServices, if_neg (by simp [hargs])]
      exact ⟨List.nodup_nil, fun _ h => h⟩
    | true =>
      obtain ⟨hmounts, prev, hforced, hprev⟩ := h.2.1 hargs
      rw [hmounts] at hforced
      constructor
      · rw [hforced]
        cases prev with
        | none => exact List.nodup_nil
        | some prev => exact hnames.sublist (List.filter_sublist.map _)
      · intro svc hsvc
        rw [forcedServices] at hsvc
        split_ifs at hsvc with hread
        · obtain rfl := hprev.resolve_right fun hp => hp.2 hread.2
          rwa [hforced]
        · exact absurd hsvc List.not_mem_nil
  obtain ⟨forced, mounts⟩ := r
  have hplan := (plan_keeps (P := Adds w.log Idle) planKept_idle forced).and
    ((plan_nodup hkeys forced).weaken fun _ _ _ => trivial)
  refine Triple.bind (Q := fun todo w' => (todo.map Prod.fst).Nodup ∧ Adds w.log Idle w')
    (hplan.conseq (fun _ _ h => h) (fun _ _ _ h => ⟨h.2, h.1⟩) fun _ _ _ _ => trivial) fun todo =>
      Triple.of_fact fun htodo => ?_
  unfold execute
  rw [if_neg (by simp [hdry])]
  have hidle : ∀ M, Idle M → Treats [] [] M := fun M h =>
    treats_of_other fun e he => Event.other_of_inner (h e he).1
  refine ((handoffs_treat todo []).weaken fun _ _ h => h.mono hidle).bind fun failed => ?_
  show Triple _ _ (if _ then _ else _) _ _
  by_cases hfailed : failed ≠ []
  · rw [if_pos hfailed]
    exact Triple.pure fun _ _ _ hn => absurd hn (by simp)
  · rw [if_neg hfailed]
    refine (finish_treat.weaken fun w' _ h => h (not_not.mp hfailed)).conseq (fun _ _ h => h)
      (fun n w' _ h _ => ?_) fun _ _ _ h => h
    exact ⟨forced, todo.map Prod.fst, h, htodo, hr.1, hr.2⟩

end Run

/-- The plan contains exactly the services that carry the label, are eligible, have exactly one
running container, are reported or forced, and have no changed one-shot, each once and with
that container.  And in a run that answers 0 each service whose mounts changed has been handed
off or else force-recreated, and once. -/
theorem reload_partition {env : ComposeEnv} (hkeys : (Dict.keys env.specs).Nodup) (w : Docker) :
    (∀ forced : List String, Undisturbed env →
      ∃ todo, (outcomeOf (plan env forced) w).1.toOption = some todo ∧
        (todo.map Prod.fst).Nodup ∧
        ∀ svc old, (svc, old) ∈ todo ↔ ∃ c, old = [c] ∧ ToHandOff env w forced svc c) ∧
    ∀ (content_hash : String → String) (args : Args), args.dry_run = false →
      (outcomeOf (main env content_hash args) w).1.toOption = some 0 →
      ∃ L, (outcomeOf (main env content_hash args) w).2.now.log = w.log ++ L ∧
        ∀ svc ∈ forcedServices env content_hash args w,
          ((handedOff L).count svc = 1 ∧ (recreated L).count svc = 0) ∨
            ((handedOff L).count svc = 0 ∧ (recreated L).count svc = 1) := by
  constructor
  · intro forced hu
    have hrun := ((plan_exact (w := w) hu forced).and
      ((plan_nodup hkeys forced).weaken fun _ _ _ => trivial)).of_start trivial ⟨rfl, rfl⟩
    cases hr : outcomeOf (plan env forced) w with
    | mk r t =>
      rw [hr] at hrun
      cases r with
      | ok todo => exact ⟨todo, rfl, hrun.2.2, hrun.2.1⟩
      | error e => exact hrun.2.1.elim
  · intro content_hash args hdry hzero
    have hrun := (main_treats hkeys content_hash hdry w).of_answer trivial rfl hzero rfl
    obtain ⟨forced, hs, ⟨L, hL, hhanded, hrecreated⟩, hnodup, hforced, hmem⟩ := hrun
    refine ⟨L, hL, fun svc hsvc => ?_⟩
    have hperm : (recreated L).Perm (forced.filter (· ∉ hs)) := by
      rw [hrecreated]
      exact List.perm_insertionSort _ _
    rw [hhanded, hperm.count_eq]
    by_cases hin : svc ∈ hs
    · left
      refine ⟨List.count_eq_one_of_mem hnodup hin, List.count_eq_zero_of_not_mem fun hc => ?_⟩
      exact absurd hin (of_decide_eq_true (List.mem_filter.mp hc).2)
    · right
      refine ⟨List.count_eq_zero_of_not_mem hin, List.count_eq_one_of_mem (hforced.filter _) ?_⟩
      exact List.mem_filter.mpr ⟨hmem svc hsvc, decide_eq_true hin⟩

theorem undisturbed_pairEnv (text : String) (fine keeps : List String) :
    Undisturbed (pairEnv text fine keeps) where
  ok _ _ := rfl
  still _ _ _ := ⟨rfl, rfl⟩

theorem nodup_keys_pairSpecs : (Dict.keys pairSpecs).Nodup := by decide

theorem reload_partition_both :
    (∃ todo, (outcomeOf (plan (pairEnv "two" ["a", "b"] []) ["a"]) pairDocker).1.toOption =
        some todo ∧ (todo.map Prod.fst).Nodup ∧ ∀ svc old, (svc, old) ∈ todo ↔
          ∃ c, old = [c] ∧ ToHandOff (pairEnv "two" ["a", "b"] []) pairDocker ["a"] svc c) ∧
      ∃ L, (outcomeOf (main (pairEnv "two" ["a", "b"] ["+a1b1", "+a1b1+a1b1"]) id {})
          pairDocker).2.now.log = pairDocker.log ++ L ∧
        ∀ svc ∈ forcedServices (pairEnv "two" ["a", "b"] ["+a1b1", "+a1b1+a1b1"]) id {} pairDocker,
          ((handedOff L).count svc = 1 ∧ (recreated L).count svc = 0) ∨
            ((handedOff L).count svc = 0 ∧ (recreated L).count svc = 1) :=
  ⟨(reload_partition nodup_keys_pairSpecs pairDocker).1 ["a"]
      (undisturbed_pairEnv _ _ _),
    (reload_partition nodup_keys_pairSpecs pairDocker).2 id {} rfl (by decide +kernel)⟩

end Compose
