/-
What planning leaves as it is.

Until the first handoff a run only reads: it lists and inspects containers, asks compose
what it would recreate, and fetches images.  So whatever the daemon keeps between the
calls (`PlanKept`) is kept by the whole plan, and what is known of a service's containers
when they are listed is known of every service in the plan.

* `PlanKept` — what the calls of the plan keep;
* `plan_rule` — the plan: each service in it is labelled, and passed the checks with one
  running container;
* `compareState_rule` — the state comparison.
-/
import KrgInfra.ComposeReload

namespace Compose

/-- A property that the daemon keeps between the calls of the plan, and that neither a
noted listing nor a fetched image changes. -/
structure PlanKept (env : ComposeEnv) (P : Docker → Prop) : Prop where
  before : ∀ i w, i.planning = true → P w → P (env.toEnv.before i w)
  listed : ∀ w svc l, P w → P (w.record [.listed svc l])
  images : ∀ w l, P w → P { w with images := l }

@[simp] theorem Docker.record_nil (w : Docker) : w.record [] = w := by
  simp [Docker.record]

namespace PlanKept

variable {env : ComposeEnv} {P P' : Docker → Prop}

theorem and (h : PlanKept env P) (h' : PlanKept env P') : PlanKept env fun w => P w ∧ P' w where
  before i w hi hw := ⟨h.before i w hi hw.1, h'.before i w hi hw.2⟩
  listed w svc l hw := ⟨h.listed w svc l hw.1, h'.listed w svc l hw.2⟩
  images w l hw := ⟨h.images w l hw.1, h'.images w l hw.2⟩

theorem forall_ {γ : Sort*} {P : γ → Docker → Prop} (h : ∀ c, PlanKept env (P c)) :
    PlanKept env fun w => ∀ c, P c w where
  before i w hi hw c := (h c).before i w hi (hw c)
  listed w svc l hw c := (h c).listed w svc l (hw c)
  images w l hw c := (h c).images w l (hw c)

end PlanKept

section Rules

variable {env : ComposeEnv} {P : Docker → Prop} (hP : PlanKept env P)

include hP

/-- The rule for a call of the plan that reads. -/
theorem planSee_rule {α : Type} {i : Site} (hi : i.planning = true)
    {f : Docker → Except Fault (α × List Event)} {Q : α → Docker → Prop}
    (hf : ∀ w a es, P w → f w = .ok (a, es) →
      (es = [] ∨ ∃ svc l, es = [.listed svc l]) ∧ Q a (w.record es)) :
    Triple (fun _ => True) P (docker env i (see f)) (fun a w => P w ∧ Q a w) fun _ => P := by
  have hsee : ∀ w, P w → P (see f w).2 := by
    intro w hw
    unfold see
    cases hr : f w with
    | error e => exact hw
    | ok r =>
      rcases (hf w r.1 r.2 hw hr).1 with hes | ⟨svc, l, hes⟩
      · simp only [hes, Docker.record_nil]
        exact hw
      · simp only [hes]
        exact hP.listed w svc l hw
  refine Triple.of_call P (fun w _ hw => ⟨trivial, hP.before i w hi hw⟩)
    (fun w _ hw => ⟨trivial, ?_⟩) fun e done w _ _ hw => ?_
  · have hw' := hsee w hw
    unfold see at hw' ⊢
    cases hr : f w with
    | error e => exact hw
    | ok r =>
      rw [hr] at hw'
      exact ⟨hw', (hf w r.1 r.2 hw hr).2⟩
  · cases done with
    | true => exact hsee w hw
    | false => exact hw

theorem planPs_rule {i : Site} (hi : i.planning = true) (svc : String) (all : Bool) :
    Triple (fun _ => True) P (ps env i svc all) (fun l w => P w ∧ l = w.ids svc all) fun _ => P := by
  refine planSee_rule hP hi fun w a es _ hf => ?_
  obtain ⟨rfl, rfl⟩ := Prod.mk.inj (Except.ok.inj hf)
  exact ⟨.inr ⟨svc, _, rfl⟩, rfl⟩

theorem planImage_rule {i : Site} (hi : i.planning = true) (id : String) :
    Triple (fun _ => True) P (image env i id)
      (fun a w => P w ∧ ∃ k, w.container id = some k ∧ k.image = a) fun _ => P := by
  refine planSee_rule hP hi fun w a es _ hf => ?_
  cases hk : w.container id with
  | none =>
    rw [hk] at hf
    exact absurd hf (by simp)
  | some k =>
    rw [hk] at hf
    obtain ⟨rfl, rfl⟩ := Prod.mk.inj (Except.ok.inj hf)
    exact ⟨.inl rfl, k, hk, rfl⟩

/-- A call that reads what is not in the containers. -/
theorem planPeek_rule {α : Type} {i : Site} (hi : i.planning = true) {f : Docker → α} :
    Triple (fun _ => True) P (docker env i (see fun w => .ok (f w, []))) (fun _ => P)
      fun _ => P := by
  refine (planSee_rule hP hi (Q := fun _ _ => True) fun w a es _ hf => ⟨.inl ?_, trivial⟩).conseq
    (fun _ _ h => h) (fun _ _ _ h => h.1) fun _ _ _ h => h
  exact (Prod.mk.inj (Except.ok.inj hf)).2.symm

/-- A command that only fetches images. -/
theorem planFetch_rule {i : Site} (hi : i.planning = true) (l : List String) :
    Triple (fun _ => True) P (docker env i (work fun w => { w with images := w.images ++ l }))
      (fun _ => P) fun _ => P := by
  refine Triple.of_call P (fun w _ hw => ⟨trivial, hP.before i w hi hw⟩)
    (fun w _ hw => ⟨trivial, hP.images w _ hw⟩) fun e done w _ _ hw => ?_
  cases done with
  | true => exact hP.images w _ hw
  | false => exact hw

/-! ### One-shots -/

theorem images_rule (svc dep : String) (ids : List String) :
    Triple (fun _ => True) P (images env svc dep ids) (fun _ => P) fun _ => P := by
  induction ids with
  | nil => exact Triple.pure fun _ _ h => h
  | cons c cs ih =>
    unfold images
    refine Triple.bind (Q := fun _ => P) ?_ fun _ => ih.bind fun _ => Triple.pure fun _ _ h => h
    exact (planImage_rule hP rfl c).conseq (fun _ _ h => h) (fun _ _ _ h => h.1) fun _ _ _ h => h

theorem oneshotChanged_rule (svc dep want : String) :
    Triple (fun _ => True) P (oneshotChanged env svc dep want) (fun _ => P) fun _ => P := by
  unfold oneshotChanged
  refine Triple.bind (Q := fun _ => P) ?_ fun l =>
    (images_rule hP svc dep l).bind fun _ => Triple.pure fun _ _ h => h
  exact (planPs_rule hP rfl dep true).conseq (fun _ _ h => h) (fun _ _ _ h => h.1) fun _ _ _ h => h

omit hP in
/-- The one-shots of a service, when a one-shot that is found unchanged has `G`. -/
theorem changed_oneshots_rule {G : String → Prop} {specs : Specs} {svc : String} (spec : Spec)
    (hG : ∀ dep, Triple (fun _ => True) P (oneshotChanged env svc dep (wantedImage specs dep))
      (fun b w => P w ∧ (b = false → G dep)) fun _ => P) :
    Triple (fun _ => True) P (changed_oneshots env specs svc spec)
      (fun pending w => P w ∧ (pending = [] →
        ∀ dep, (dep, some "service_completed_successfully") ∈ spec.depends_on →
          wantedImage specs dep ≠ "" → G dep)) fun _ => P := by
  have hdeps : ∀ deps, Triple (fun _ => True) P (pendingOneshots env specs svc deps)
      (fun pending w => P w ∧ (pending = [] →
        ∀ dep, (dep, some "service_completed_successfully") ∈ deps →
          wantedImage specs dep ≠ "" → G dep)) fun _ => P := by
    intro deps
    induction deps with
    | nil => exact Triple.pure fun _ _ h => ⟨h, fun _ dep hdep => absurd hdep List.not_mem_nil⟩
    | cons d deps ih =>
      obtain ⟨dep, cond⟩ := d
      unfold pendingOneshots
      split_ifs with hskip
      · refine ih.conseq (fun _ _ h => h) (fun pending w _ h => ⟨h.1, fun hp dep' hdep' hw => ?_⟩)
          fun _ _ _ h => h
        rcases List.mem_cons.mp hdep' with heq | hmem
        · obtain ⟨rfl, rfl⟩ := Prod.mk.inj heq
          exact absurd hskip (by simp [hw])
        · exact h.2 hp dep' hmem hw
      · have hrest : ∀ b, Triple (fun _ => True) (fun w => (b = false → G dep) ∧ P w)
            (pendingOneshots env specs svc deps)
            (fun pending w => (b = false → G dep) ∧ P w ∧ (pending = [] →
              ∀ dep, (dep, some "service_completed_successfully") ∈ deps →
                wantedImage specs dep ≠ "" → G dep)) fun _ => P := fun b =>
          Triple.of_fact fun hb => ih.conseq (fun _ _ h => h) (fun _ _ _ h => ⟨hb, h⟩)
            fun _ _ _ h => h
        refine (hG dep).bind fun b => ((hrest b).weaken fun _ _ h => ⟨h.2, h.1⟩).bind fun pending =>
          Triple.pure fun w _ h => ⟨h.2.1, fun hp dep' hdep' hw => ?_⟩
        cases b with
        | true => exact absurd hp (by simp)
        | false =>
          rcases List.mem_cons.mp hdep' with heq | hmem
          · obtain ⟨rfl, -⟩ := Prod.mk.inj heq
            exact h.1 rfl
          · exact h.2.2 hp dep' hmem hw
  unfold changed_oneshots
  refine (hdeps spec.depends_on).map fun pending w _ h => ⟨h.1, fun hs => h.2 ?_⟩
  refine List.eq_nil_iff_forall_not_mem.mpr fun x hx => ?_
  rw [← mem_sorted, hs] at hx
  exact absurd hx List.not_mem_nil

/-! ### The plan -/

theorem build_missing_rule (specs : Specs) :
    Triple (fun _ => True) P (build_missing env specs) (fun _ => P) fun _ => P := by
  have hone : ∀ svc spec, Triple (fun _ => True) P (missingImage env svc spec) (fun _ => P)
      fun _ => P := by
    intro svc spec
    unfold missingImage has_image
    split_ifs
    · exact Triple.map (Q := fun _ => P) (Triple.pure fun _ _ h => h) fun _ _ _ h => h
    · exact (planPeek_rule hP rfl).map fun _ _ _ h => h
    · exact Triple.pure fun _ _ h => h
  have hall : ∀ specs, Triple (fun _ => True) P (missingImages env specs) (fun _ => P)
      fun _ => P := by
    intro specs
    induction specs with
    | nil => exact Triple.pure fun _ _ h => h
    | cons s specs ih =>
      unfold missingImages
      exact (hone s.1 s.2).bind fun _ => ih.bind fun _ => Triple.pure fun _ _ h => h
  unfold build_missing
  refine ((hall specs).map (R := fun _ => P) fun _ _ _ h => h).bind fun todo => ?_
  show Triple _ _ (if _ then _ else _) _ _
  split_ifs
  · exact Triple.pure fun _ _ h => h
  · exact (planFetch_rule hP rfl _).bind fun _ => Triple.pure fun _ _ h => h

theorem changed_services_rule (services : List String) :
    Triple (fun _ => True) P (changed_services env services) (fun _ => P) fun _ => P := by
  unfold changed_services
  split_ifs
  · exact Triple.pure fun _ _ h => h
  · refine (planFetch_rule hP rfl _).bind fun _ => ?_
    refine (planPeek_rule hP rfl).bind fun names => ?_
    show Triple _ _ (if _ then _ else _) _ _
    split_ifs
    · exact Triple.pure fun _ _ h => h
    · exact (planPeek_rule hP rfl).bind fun _ => Triple.pure fun _ _ h => h

end Rules

/-- What is known of a service that the plan hands off. -/
structure Eligible (G : String → Prop) (specs : Specs) (forced changed : List String)
    (svc : String) (old : List String) : Prop where
  labelled : ((specs.lookup svc).getD {}).labelled = true
  wanted : svc ∈ forced ∨ svc ∈ changed
  single : ∃ c, old = [c]
  eligible : ineligible ((specs.lookup svc).getD {}) = none
  oneshots : ∀ dep, (dep, some "service_completed_successfully") ∈
    ((specs.lookup svc).getD {}).depends_on → wantedImage specs dep ≠ "" → G dep

section Plan

variable {env : ComposeEnv} {P₀ : Docker → Prop} {F : String → List String → Docker → Prop}
  {G : String → Prop} {specs : Specs} {forced changed : List String}
  (hF : ∀ svc old, PlanKept env (F svc old))
  (hlist : ∀ w svc c, P₀ w → ((specs.lookup svc).getD {}).labelled = true →
    w.ids svc false = [c] → F svc [c] w)
  (hG : ∀ P, PlanKept env P → (∀ w, P w → P₀ w) → ∀ svc dep,
    Triple (fun _ => True) P (oneshotChanged env svc dep (wantedImage specs dep))
      (fun b w => P w ∧ (b = false → G dep)) fun _ => P)

include hF hlist hG

/-- One service: if it is in the plan it has passed the checks, and its one container is
the one that was listed. -/
theorem planOne_rule {P : Docker → Prop} (hP : PlanKept env P) (hPP : ∀ w, P w → P₀ w)
    (svc : String) :
    Triple (fun _ => True) P (planOne env specs forced changed svc)
      (fun o w => P w ∧ ∀ old, o = some old →
        Eligible G specs forced changed svc old ∧ F svc old w) fun _ => P := by
  have hnone : ∀ P' : Docker → Prop, (∀ w, P' w → P w) →
      Triple (fun _ => True) P' (pure none : Reload (Option (List String)))
        (fun o w => P w ∧ ∀ old, o = some old →
          Eligible G specs forced changed svc old ∧ F svc old w) fun _ => P := fun P' h =>
    Triple.pure fun w _ hw => ⟨h w hw, fun old ho => absurd ho (by simp)⟩
  unfold planOne
  dsimp only
  split_ifs with hlab
  · refine (planPs_rule hP rfl svc false).bind fun old => ?_
    unfold planRunning
    split_ifs with h₁ h₂ h₃ h₄
    · exact hnone _ fun _ h => h.1
    · exact hnone _ fun _ h => h.1
    · exact hnone _ fun _ h => h.1
    · exact hnone _ fun _ h => h.1
    · -- exactly one container runs
      obtain ⟨c, rfl⟩ : ∃ c, old = [c] := by
        match old, h₁, h₃ with
        | [c], _, _ => exact ⟨c, rfl⟩
        | _ :: _ :: _, _, h₃ => exact absurd h₃ (by simp)
      have hPF : PlanKept env fun w => P w ∧ F svc [c] w := hP.and (hF svc [c])
      have hone := changed_oneshots_rule ((specs.lookup svc).getD {})
        (hG _ hPF (fun w h => hPP w h.1) svc)
      refine ((hone.weaken fun w _ h => ⟨h.1, hlist w svc c (hPP w h.1) hlab h.2.symm⟩).except
        fun _ _ _ h => h.1).bind fun pending => Triple.pure fun w _ h => ⟨h.1.1, fun old ho => ?_⟩
      by_cases hp : pending = []
      · rw [if_pos hp] at ho
        obtain rfl := Option.some_inj.mp ho
        refine ⟨⟨hlab, ?_, ⟨c, rfl⟩, ?_, h.2 hp⟩, h.1.2⟩
        · by_contra hn
          exact h₂ (not_or.mp hn)
        · simpa using h₄
      · rw [if_neg hp] at ho
        exact absurd ho (by simp)
  · exact hnone _ fun _ h => h

theorem planAll_rule (svcs : List String) :
    ∀ {P : Docker → Prop}, PlanKept env P → (∀ w, P w → P₀ w) →
      Triple (fun _ => True) P (planAll env specs forced changed svcs)
        (fun todo w => P w ∧ ∀ svc old, (svc, old) ∈ todo → svc ∈ svcs ∧
          Eligible G specs forced changed svc old ∧ F svc old w) fun _ => P := by
  induction svcs with
  | nil =>
    exact fun _ _ => Triple.pure fun _ _ h => ⟨h, fun _ _ hmem => absurd hmem List.not_mem_nil⟩
  | cons svc svcs ih =>
    intro P hP hPP
    unfold planAll
    refine (planOne_rule hF hlist hG hP hPP svc).bind fun one => ?_
    -- the rest of the plan is made in worlds where the first service's facts still hold
    have hrest := ih (P := fun w => P w ∧ ∀ old, one = some old →
        Eligible G specs forced changed svc old ∧ F svc old w)
      (hP.and (PlanKept.forall_ fun old => PlanKept.forall_ fun _ =>
        { before := fun i w hi h => ⟨h.1, (hF svc old).before i w hi h.2⟩
          listed := fun w s l h => ⟨h.1, (hF svc old).listed w s l h.2⟩
          images := fun w l h => ⟨h.1, (hF svc old).images w l h.2⟩ })) fun w h => hPP w h.1
    refine (hrest.except fun _ _ _ h => h.1).bind fun todo =>
      Triple.pure fun w _ h => ⟨h.1.1, fun svc' old hmem => ?_⟩
    rcases List.mem_append.mp hmem with hmem | hmem
    · obtain ⟨old', hold, heq⟩ : ∃ old', one = some old' ∧ (svc, old') = (svc', old) := by
        simpa using hmem
      obtain ⟨rfl, rfl⟩ := Prod.mk.inj heq
      exact ⟨List.mem_cons_self, h.1.2 old' hold⟩
    · exact ⟨List.mem_cons_of_mem _ (h.2 svc' old hmem).1, (h.2 svc' old hmem).2⟩

end Plan

/-- The plan: each service in it is labelled and passed the checks, and its one container
is one that was listed as running. -/
theorem plan_rule {env : ComposeEnv} {P : Docker → Prop}
    {F : String → List String → Docker → Prop} {G : String → Prop} (forced : List String)
    (hP : PlanKept env P) (hF : ∀ svc old, PlanKept env (F svc old))
    (hlist : ∀ w svc c, P w → ((env.specs.lookup svc).getD {}).labelled = true →
      w.ids svc false = [c] → F svc [c] w)
    (hG : ∀ P', PlanKept env P' → (∀ w, P' w → P w) → ∀ svc dep,
      Triple (fun _ => True) P' (oneshotChanged env svc dep (wantedImage env.specs dep))
        (fun b w => P' w ∧ (b = false → G dep)) fun _ => P') :
    Triple (fun _ => True) P (plan env forced)
      (fun todo w => P w ∧ ∀ svc old, (svc, old) ∈ todo → svc ∈ env.specs.map Prod.fst ∧
        (∃ changed, Eligible G env.specs forced changed svc old) ∧ F svc old w) fun _ => P := by
  unfold plan
  refine (planSee_rule hP rfl (Q := fun sp _ => sp = env.specs) fun w a es _ hf => ?_).bind
    fun sp => ?_
  · obtain ⟨rfl, rfl⟩ := Prod.mk.inj (Except.ok.inj hf)
    exact ⟨.inl rfl, rfl⟩
  · refine Triple.weaken (P := fun w => sp = env.specs ∧ P w) (Triple.of_fact ?_)
      fun _ _ h => ⟨h.2, h.1⟩
    rintro rfl
    refine (build_missing_rule hP env.specs).bind fun _ => ?_
    refine (changed_services_rule hP _).bind fun changed => ?_
    refine (planAll_rule hF hlist hG _ hP fun _ h => h).conseq
      (fun _ _ h => h) (fun todo w _ h => ⟨h.1, fun svc old hmem => ?_⟩) fun _ _ _ h => h
    obtain ⟨hs, he, hf⟩ := h.2 svc old hmem
    exact ⟨mem_sorted.mp hs, ⟨changed, he⟩, hf⟩

/-- The plan as it is, without facts of its services. -/
theorem plan_keeps {env : ComposeEnv} {P : Docker → Prop} (hP : PlanKept env P)
    (forced : List String) :
    Triple (fun _ => True) P (plan env forced) (fun _ => P) fun _ => P :=
  (plan_rule (F := fun _ _ _ => True) (G := fun _ => True) forced hP
    (fun _ _ => ⟨fun _ _ _ _ => trivial, fun _ _ _ _ => trivial, fun _ _ _ => trivial⟩)
    (fun _ _ _ _ _ _ => trivial) fun _ hP' _ svc dep =>
      (oneshotChanged_rule hP' svc dep _).conseq (fun _ _ h => h) (fun _ _ _ h => ⟨h, fun _ => trivial⟩)
        fun _ _ _ h => h).conseq (fun _ _ h => h) (fun _ _ _ h => h.1) fun _ _ _ h => h

/-- The state comparison: what is loaded of a state file that can be read (of which `S` is
known) is compared with what the mounts show. -/
theorem compareState_rule {env : ComposeEnv} (content_hash : String → String) (args : Args)
    {P : Docker → Prop} {S : Option (List (String × List String)) → Prop} (hP : PlanKept env P)
    (hS : ∀ w, P w → S (w.state.bind SavedState.load)) :
    Triple (fun _ => True) P (compareState env content_hash args)
      (fun r w => P w ∧
        (args.state = true → r.2 = mount_fingerprints content_hash env.files env.specs ∧
          ∃ prev, r.1 = mounts_changed prev r.2 ∧
            (S prev ∨ prev = none ∧ env.outcome .loadState ≠ .ok)) ∧
        (args.state = false → r.1 = [])) fun _ => P := by
  unfold compareState
  split_ifs with hargs
  · refine (planSee_rule hP rfl (Q := fun sp _ => sp = env.specs) fun w a es _ hf => ?_).bind
      fun sp => ?_
    · obtain ⟨rfl, rfl⟩ := Prod.mk.inj (Except.ok.inj hf)
      exact ⟨.inl rfl, rfl⟩
    · refine Triple.weaken (P := fun w => sp = env.specs ∧ P w) (Triple.of_fact ?_)
        fun _ _ h => ⟨h.2, h.1⟩
      rintro rfl
      have hload : Triple (fun _ => True) P (load_state env) (fun prev w => P w ∧
          (S prev ∨ prev = none ∧ env.outcome .loadState ≠ .ok)) fun _ => P := by
        unfold load_state
        refine Triple.tryCatch (E := fun _ w => P w ∧ env.outcome .loadState ≠ .ok) ?_ fun _ =>
          Triple.pure fun w _ h => ⟨h.1, .inr ⟨rfl, h.2⟩⟩
        refine Triple.of_call P (fun w _ hw => ⟨trivial, hP.before _ w rfl hw⟩)
          (fun w _ hw => ⟨trivial, ?_⟩) fun e done w ho _ hw => ⟨?_, fun hok => ?_⟩
        · simp only [see, Docker.record_nil]
          exact ⟨hw, .inl (hS w hw)⟩
        · simp only [see, Docker.record_nil, ite_self]
          exact hw
        · exact absurd (ho.symm.trans hok) (by simp)
      refine hload.bind fun prev => Triple.pure fun w _ h =>
        ⟨h.1, fun _ => ⟨rfl, prev, rfl, h.2⟩, fun h' => ?_⟩
      exact absurd (hargs.symm.trans h') (by simp)
  · exact Triple.pure fun w _ h => ⟨h, fun h' => absurd h' hargs, fun _ => rfl⟩

end Compose
