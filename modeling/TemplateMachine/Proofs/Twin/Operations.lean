import TemplateMachine.Proofs.Twin.State

/-! The operations that instructions are made of, on two machines side by side. -/

namespace TemplateMachine

section

variable {o : CompileOptions} {d : Duo} {G : Ground o} {π : Pins} {s s' : Shape} {l r : Private}
variable {n : Nat} {k : Kind} {v v' : Value} {pre post : Private → Private → Prop}

/-! ### Shapes -/

namespace Shape

/-- There is one more value on top. -/
def push (s : Shape) (k : Kind) : Shape := { s with kinds := k :: s.kinds }

/-- Nothing is known of the topmost values in particular. -/
abbrev loose (n : Nat) : Shape := { solids := n }

/-- What fits the one shape fits the other. -/
def Yields (s s' : Shape) : Prop :=
  ∀ {o : CompileOptions} {d : Duo} {top : List StackPair}, s.Fits o d top → s'.Fits o d top

theorem Yields.refl (s : Shape) : s.Yields s := id

theorem Yields.trans {s s' s'' : Shape} (h : s.Yields s') (h' : s'.Yields s'') : s.Yields s'' :=
  h' ∘ h

theorem Yields.push (h : s.Yields s') (k : Kind) : (s.push k).Yields (s'.push k) := by
  rintro o d top ⟨us, vs, rfl, hus, hvs, hn⟩
  obtain ⟨c, us, hc, hrest, rfl⟩ := List.forall₂_cons_left_iff.mp hus
  have hfits : s.Fits o d (us ++ vs) := ⟨us, vs, rfl, hrest, hvs, hn⟩
  obtain ⟨us', vs', htop, hus', hvs', hn'⟩ := h hfits
  exact ⟨c :: us', vs', by rw [List.cons_append, htop, List.cons_append], .cons hc hus', hvs', hn'⟩

theorem yields_loose (n : Nat) (k : Kind) (hk : k = .ref ∨ k = .solid ∨ k = .any) :
    ((loose n).push k).Yields (loose (if k = .solid then n + 1 else n)) := by
  rintro o d top ⟨us, vs, rfl, hus, hvs, hn⟩
  obtain ⟨c, us, hc, hrest, rfl⟩ := List.forall₂_cons_left_iff.mp hus
  cases hrest
  have htwin : c.1.Twin o d c.2 := by
    rcases hk with rfl | rfl | rfl
    · exact hc.1
    · exact hc.1
    · exact hc
  refine ⟨[], c :: vs, rfl, .nil, ?_, ?_⟩
  · rintro c' (_ | ⟨_, hc'⟩)
    · exact htwin
    · exact hvs c' hc'
  · rw [solidCount, List.countP_cons]
    split
    · subst k
      rw [hc.2]
      exact Nat.add_le_add_right hn 1
    · exact Nat.le_trans hn (Nat.le_add_right _ _)

theorem yields_ref (n : Nat) : ((loose n).push .ref).Yields (loose n) :=
  yields_loose n .ref (.inl rfl)

theorem yields_solid (n : Nat) : ((loose n).push .solid).Yields (loose (n + 1)) :=
  yields_loose n .solid (.inr (.inl rfl))

theorem yields_any (n : Nat) : ((loose n).push .any).Yields (loose n) :=
  yields_loose n .any (.inr (.inr rfl))

theorem yields_fewer {m n : Nat} (h : m ≤ n) : (loose n).Yields (loose m) := by
  rintro o d top ⟨us, vs, htop, hus, hvs, hn⟩
  exact ⟨us, vs, htop, hus, hvs, Nat.le_trans h hn⟩

theorem yields_any_of (s : Shape) {k : Kind} (hk : k = .ref ∨ k = .solid) :
    (s.push k).Yields (s.push .any) := by
  rintro o d top ⟨us, vs, htop, hus, hvs, hn⟩
  obtain ⟨c, us, hc, hrest, rfl⟩ := List.forall₂_cons_left_iff.mp hus
  refine ⟨c :: us, vs, htop, .cons ?_ hrest, hvs, hn⟩
  rcases hk with rfl | rfl
  · exact hc.1
  · exact hc.1

end Shape

/-! ### States -/

theorem Held.yields (h : Held G π s l r) (hs : s.Yields s') : Held G π s' l r := by
  obtain ⟨top, base, hl, hr, hfits, hbase⟩ := h.stack
  exact { h with stack := ⟨top, base, hl, hr, hs hfits, hbase⟩ }

/-- The stacks are changed. -/
theorem Held.restack (h : Held G π s l r) {xs ys : Array Value} (top base : List StackPair)
    (hl : xs = stackOf ((top ++ base).map Prod.fst))
    (hr : ys = stackOf ((top ++ base).map Prod.snd)) (htop : s'.Fits o (l.duo r) top)
    (hbase : G.Holds (l.duo r) base) :
    Held G π s' { l with stack := xs } { r with stack := ys } :=
  { h with stack := ⟨top, base, hl, hr, htop, hbase⟩ }

theorem Held.rebase (h : Held G π s l r) : Held G (π.at (l.duo r)) s l r :=
  { h with since := .refl _ }

theorem Held.unbase {e : Duo} (h : Held G (π.at e) s l r)
    (he : π.since.Within e) : Held G π s l r :=
  { h with since := he.trans h.since }

theorem Held.push (h : Held G π s l r) (hk : k.Admits o (l.duo r) (v, v')) :
    Held G π (s.push k) { l with stack := l.stack.push v } { r with stack := r.stack.push v' } := by
  obtain ⟨top, base, hl, hr, ⟨us, vs, rfl, hus, hvs, hn⟩, hbase⟩ := h.stack
  refine h.restack ((v, v') :: (us ++ vs)) base ?_ ?_
    ⟨(v, v') :: us, vs, rfl, .cons hk hus, hvs, hn⟩ hbase
  · rw [hl, ← stackOf_cons]
    rfl
  · rw [hr, ← stackOf_cons]
    rfl

theorem Kind.Admits.alike {c : StackPair} (h : k.Admits o d c) : c.1.Alike o d c.2 := by
  cases k with
  | ref => exact .twin h.1
  | solid => exact .twin h.1
  | any => exact .twin h
  | literal =>
    obtain ⟨p, rfl⟩ := h
    exact .primitive p
  | stray => exact h

theorem Kind.alike_of_mem {ks : List Kind} {us : List StackPair}
    (h : List.Forall₂ (fun (k : Kind) (c : StackPair) => k.Admits o d c) ks us) {c : StackPair}
    (hc : c ∈ us) : c.1.Alike o d c.2 := by
  induction h with
  | nil => cases hc
  | cons hk _ ih =>
    cases hc with
    | head => exact hk.alike
    | tail _ hc => exact ih hc

theorem Kind.exists_of_get? {ks : List Kind} {us : List StackPair}
    (h : List.Forall₂ (fun (k : Kind) (c : StackPair) => k.Admits o d c) ks us) {i : Nat}
    (hk : ks[i]? = some k) :
    ∃ c, us[i]? = some c ∧ k.Admits o d c := by
  induction h generalizing i with
  | nil => simp at hk
  | cons hc _ ih =>
    cases i with
    | zero =>
      obtain rfl := Option.some.inj hk
      exact ⟨_, rfl, hc⟩
    | succ i => exact ih hk

/-- Values at the same height are alike. -/
theorem Held.pointwise (h : Held G π s l r) :
    Pointwise (Value.Alike o (l.duo r)) l.stack r.stack := by
  obtain ⟨top, base, hl, hr, ⟨us, vs, rfl, hus, hvs, hn⟩, hbase⟩ := h.stack
  have halike (c : StackPair) (hc : c ∈ us ++ vs ++ base) : c.1.Alike o (l.duo r) c.2 := by
    rcases List.mem_append.mp hc with hc | hc
    · rcases List.mem_append.mp hc with hc | hc
      · exact Kind.alike_of_mem hus hc
      · exact .twin (hvs c hc)
    · exact G.alike hbase hc
  rw [hl, hr]
  refine ⟨by simp, fun i x y hx hy => ?_⟩
  rw [getElem?_stackOf, ← List.map_reverse, List.getElem?_map] at hx hy
  obtain ⟨c, hc, rfl⟩ := Option.map_eq_some_iff.mp hx
  rw [hc] at hy
  obtain rfl := Option.some.inj hy
  exact halike c (List.mem_reverse.mp (List.mem_of_getElem? hc))

/-- What may be on top of the two stacks, and what there is when it is taken. -/
inductive Tops (post : Value → Value → Private → Private → Prop) (l r : Private) : Prop
  | empty (hl : l.stack = #[]) (hr : r.stack = #[])
  | top {v v' : Value} (xs ys : Array Value) (hl : l.stack = xs.push v) (hr : r.stack = ys.push v')
    (hpost : post v v' { l with stack := xs } { r with stack := ys })

theorem Tops.mono {post post' : Value → Value → Private → Private → Prop} (h : Tops post l r)
    (hpost : ∀ v v' l r, post v v' l r → post' v v' l r) : Tops post' l r := by
  cases h with
  | empty hl hr => exact .empty hl hr
  | top xs ys hl hr h => exact .top xs ys hl hr (hpost _ _ _ _ h)

/-- The topmost value is known. -/
theorem Held.tops (h : Held G π (s.push k) l r) :
    Tops (fun v v' l r => k.Admits o (l.duo r) (v, v') ∧ Held G π s l r) l r := by
  obtain ⟨top, base, hl, hr, ⟨us, vs, rfl, hus, hvs, hn⟩, hbase⟩ := h.stack
  obtain ⟨⟨v, v'⟩, us, hv, hrest, rfl⟩ := List.forall₂_cons_left_iff.mp hus
  refine .top (stackOf ((us ++ vs ++ base).map Prod.fst))
    (stackOf ((us ++ vs ++ base).map Prod.snd)) ?_ ?_
    ⟨hv, h.restack (us ++ vs) base rfl rfl ⟨us, vs, rfl, hrest, hvs, hn⟩ hbase⟩
  · rw [hl, ← stackOf_cons]
    rfl
  · rw [hr, ← stackOf_cons]
    rfl

theorem solidCount_cons_le (c : StackPair) (vs : List StackPair) :
    solidCount (c :: vs) ≤ solidCount vs + 1 := by
  rw [solidCount, solidCount, List.countP_cons]
  split <;> omega

/-- Something that is no reference is left. -/
theorem Held.tops_solid (h : Held G π (.loose (n + 1)) l r) :
    Tops (fun v v' l r => v.Twin o (l.duo r) v' ∧ Held G π (.loose n) l r) l r := by
  obtain ⟨top, base, hl, hr, ⟨us, vs, rfl, hus, hvs, hn⟩, hbase⟩ := h.stack
  cases hus
  cases vs with
  | nil => cases hn
  | cons c vs =>
    obtain ⟨v, v'⟩ := c
    have hcount : n + 1 ≤ solidCount vs + 1 := Nat.le_trans hn (solidCount_cons_le (v, v') vs)
    refine .top (stackOf ((vs ++ base).map Prod.fst)) (stackOf ((vs ++ base).map Prod.snd)) ?_ ?_
      ⟨hvs (v, v') (.head _), h.restack vs base rfl rfl
        ⟨[], vs, rfl, .nil, fun c hc => hvs c (.tail _ hc), Nat.le_of_succ_le_succ hcount⟩ hbase⟩
    · rw [hl, ← stackOf_cons]
      rfl
    · rw [hr, ← stackOf_cons]
      rfl

/-- Nothing is known of what is on top.  Taking a reference leaves everything else. -/
theorem Held.tops_any (h : Held G π (.loose n) l r) :
    Tops (fun v v' l r => v.Alike o (l.duo r) v' ∧ Held G π (.loose (n - 1)) l r ∧
      (v.isRef = true → Held G π (.loose n) l r)) l r := by
  obtain ⟨top, base, hl, hr, ⟨us, vs, rfl, hus, hvs, hn⟩, hbase⟩ := h.stack
  cases hus
  replace hn : n ≤ solidCount vs := hn
  cases vs with
  | nil =>
    cases base with
    | nil => exact .empty hl hr
    | cons c base =>
      obtain ⟨v, v'⟩ := c
      obtain ⟨halike, hpopped⟩ := G.pop hbase
      obtain rfl : n = 0 := Nat.le_zero.mp hn
      have hempty : (Shape.loose 0).Fits o (l.duo r) [] :=
        ⟨[], [], rfl, .nil, fun _ hc => absurd hc List.not_mem_nil, Nat.zero_le _⟩
      have hheld := h.restack [] base rfl rfl hempty hpopped
      refine .top (stackOf (base.map Prod.fst)) (stackOf (base.map Prod.snd)) ?_ ?_
        ⟨halike, hheld, fun _ => hheld⟩
      · rw [hl, ← stackOf_cons]
        rfl
      · rw [hr, ← stackOf_cons]
        rfl
  | cons c vs =>
    obtain ⟨v, v'⟩ := c
    have htwins (c : StackPair) (hc : c ∈ vs) := hvs c (.tail _ hc)
    have hvs' (n' : Nat) (hn' : n' ≤ solidCount vs) : (Shape.loose n').Fits o (l.duo r) vs :=
      ⟨[], vs, rfl, .nil, htwins, hn'⟩
    have hheld (n' : Nat) (hn' : n' ≤ solidCount vs) :=
      h.restack vs base rfl rfl (hvs' n' hn') hbase
    refine .top (stackOf ((vs ++ base).map Prod.fst)) (stackOf ((vs ++ base).map Prod.snd)) ?_ ?_
      ⟨.twin (hvs (v, v') (.head _)), hheld (n - 1) ?_, fun hv => hheld n ?_⟩
    · rw [hl, ← stackOf_cons]
      rfl
    · rw [hr, ← stackOf_cons]
      rfl
    · exact Nat.sub_le_of_le_add (Nat.le_trans hn (solidCount_cons_le (v, v') vs))
    · rw [solidCount, List.countP_cons, show (v, v').1.isRef = true from hv] at hn
      exact hn

end

/-! ### Taking values from the stack -/

namespace Exec

section

variable {setup : Setup} {G : Ground setup.options} {π : Pins} {s : Shape} {n : Nat} {k : Kind}
variable {pre post : Private → Private → Prop}

/-- What is known of the programs now is known from now on. -/
theorem Tied.bind_known {α β γ δ : Type} {x : Exec α} {y : Exec β} {f : α → Exec γ} {g : β → Exec δ}
    {R : α → β → Duo → Prop} {post : γ → δ → Private → Private → Prop}
    (hx : Tied setup pre x y fun a b => HeldWith (R a b) G π s)
    (hf : ∀ a b e, π.since.Within e → R a b e → Tied setup (Held G (π.at e) s) (f a) (g b) post) :
    Tied setup pre (x >>= f) (y >>= g) post :=
  hx.bind fun a b m q hpre => hf a b _ hpre.2.since hpre.1 m q hpre.2.rebase

theorem Tied.of_known {α β : Type} {x : Exec α} {y : Exec β} {R : Duo → Prop} {s' : Shape}
    (h : ∀ e, π.since.Within e → R e → Tied setup (Held G (π.at e) s) x y fun _ _ =>
      Held G (π.at e) s') :
    Tied setup (HeldWith R G π s) x y fun _ _ => Held G π s' := fun m q hpre =>
  ((h _ hpre.2.since hpre.1).weaken fun _ _ _ _ h => h.unbase hpre.2.since) m q hpre.2.rebase

theorem Tied.bind_with {α β γ δ : Type} {x : Exec α} {y : Exec β} {f : α → Exec γ} {g : β → Exec δ}
    {R : α → β → Duo → Prop} {s' : Shape}
    (hx : Tied setup pre x y fun a b => HeldWith (R a b) G π s)
    (hf : ∀ a b e, π.since.Within e → R a b e →
      Tied setup (Held G (π.at e) s) (f a) (g b) fun _ _ => Held G (π.at e) s') :
    Tied setup pre (x >>= f) (y >>= g) fun _ _ => Held G π s' :=
  hx.bind_known fun a b e he h => (hf a b e he h).weaken fun _ _ _ _ h => h.unbase he

theorem tied_pop {post : Value → Value → Private → Private → Prop}
    (h : ∀ l r, pre l r → Tops post l r) :
    Tied setup pre pop pop post := by
  refine Tied.get_bind fun m q hpre => ?_
  cases h _ _ hpre with
  | empty hl hr =>
    replace hl : m.stack = #[] := hl
    replace hr : (m.beside q).stack = #[] := hr
    rw [hl, hr]
    exact Tied.underflow
  | @top v v' xs ys hl hr hpost =>
    replace hl : m.stack = xs.push v := hl
    replace hr : (m.beside q).stack = ys.push v' := hr
    rw [hl, hr, Array.back?_push, Array.back?_push]
    refine Tied.bind (?_ : Tied setup _ _ _ fun _ _ => post v v') fun _ _ =>
      Tied.pure fun _ _ h => h
    refine Tied.changes (fun _ => rfl) ?_
    rintro m₁ q₁ ⟨hm, rfl⟩
    refine ⟨{ q₁ with stack := ys }, ?_, ?_⟩
    · show Machine.beside m₁ { q₁ with stack := q₁.stack.pop } = _
      rw [show q₁.stack = ys.push v' from hr, Array.pop_push]
      rfl
    · have hstack : m₁.stack = xs.push v := (congrArg Private.stack hm).trans hl
      show post v v' { m₁.own with stack := m₁.stack.pop } _
      rw [hstack, Array.pop_push, hm]
      exact hpost

theorem tied_pop_known : Tied setup (Held G π (s.push k)) pop pop fun v v' =>
    HeldWith (fun e => k.Admits setup.options e (v, v')) G π s := tied_pop fun _ _ h => h.tops

theorem tied_pop_solid : Tied setup (Held G π (.loose (n + 1))) pop pop fun v v' =>
    HeldWith (fun e => v.Twin setup.options e v') G π (.loose n) :=
      tied_pop fun _ _ h => h.tops_solid

theorem tied_pop_any : Tied setup (Held G π (.loose n)) pop pop fun _ _ =>
    Held G π (.loose (n - 1)) := tied_pop fun _ _ h => h.tops_any.mono fun _ _ _ _ h => h.2.1

/-- Taking a reference. -/
theorem tied_popRef_of (h : ∀ l r, pre l r →
    Tops (fun v v' l r => v.Alike setup.options (l.duo r) v' ∧ (v.isRef = true → post l r)) l r) :
    Tied setup pre popRef popRef fun a b l r => a = b ∧ post l r := by
  refine (tied_pop h).bind fun v v' m q hpre => ?_
  obtain ⟨halike, hpost⟩ := hpre
  cases halike with
  | twin htwin =>
    cases htwin with
    | ref reference => exact .ok rfl ⟨q, rfl, rfl, hpost rfl⟩
    | _ => exact .fault rfl rfl
  | _ => exact .fault rfl rfl

theorem tied_popRef : Tied setup (Held G π (s.push .ref)) popRef popRef fun a b l r =>
    a = b ∧ Held G π s l r :=
  tied_popRef_of fun _ _ h => h.tops.mono fun _ _ _ _ h => ⟨.twin h.1.1, fun _ => h.2⟩

theorem tied_popRef_stray : Tied setup (Held G π (s.push .stray)) popRef popRef fun a b l r =>
    a = b ∧ Held G π s l r :=
  tied_popRef_of fun _ _ h => h.tops.mono fun _ _ _ _ h => ⟨h.1, fun _ => h.2⟩

theorem tied_popRef_loose : Tied setup (Held G π (.loose n)) popRef popRef fun a b l r =>
    a = b ∧ Held G π (.loose n) l r :=
  tied_popRef_of fun _ _ h => h.tops_any.mono fun _ _ _ _ h => ⟨h.1, h.2.2⟩

/-- What is read from the cells is the same on both sides. -/
theorem tied_popDatum (h : Tied setup pre popRef popRef fun a b l r => a = b ∧ post l r) :
    Tied setup pre popDatum popDatum fun a b l r => a = b ∧ post l r :=
  h.bind fun a _ => .given fun hab => hab ▸ (Shared.get_bind (f := fun m => pure (a.value m.cells))
    (fun _ _ => rfl) fun _ => Shared.pure _) post

theorem tied_popRefs (taken : List Reference) (count : Nat) :
    Tied setup (Held G π (.loose n)) (popRefs taken count) (popRefs taken count) fun a b l r =>
      a = b ∧ Held G π (.loose n) l r := by
  induction count generalizing taken with
  | zero => exact Tied.pure fun _ _ h => ⟨rfl, h⟩
  | succ count ih => exact tied_popRef_loose.bind fun a _ => .given fun hab => hab ▸ ih (a :: taken)

theorem tied_drop (count : Nat) :
    Tied setup (Held G π (.loose 0)) (drop count) (drop count) fun _ _ =>
    Held G π (.loose 0) := by
  induction count with
  | zero => exact Tied.pure fun _ _ h => h
  | succ count ih => exact tied_pop_any.bind fun _ _ => ih

theorem tied_popArgs : Tied setup (Held G π (s.push .solid)) popArgs popArgs fun a b l r =>
    a = b ∧ Held G π s l r := by
  refine tied_pop_known.bind fun v v' m q hpre => ?_
  obtain ⟨⟨htwin, -⟩, hheld⟩ := hpre
  replace htwin : v.Twin setup.options (m.own.duo q) v' := htwin
  cases htwin with
  | args a => exact .ok rfl ⟨q, rfl, rfl, hheld⟩
  | _ => exact .fault rfl rfl

theorem tied_popBlock_known :
    Tied setup (Held G π ((s.push .any).push .any)) popBlock popBlock fun a b =>
    HeldWith (fun e => a.Twin setup.options e b) G π s :=
  tied_pop_known.bind_known fun _ _ _ he hv => tied_pop_known.bind_known fun _ _ _ he' hw =>
    Tied.pure fun _ _ h => ⟨⟨hw.mono h.since, hv.mono (he'.trans h.since)⟩,
      (h.unbase he').unbase he⟩

theorem tied_popBlock : Tied setup (Held G π (.loose (n + 2))) popBlock popBlock fun a b =>
    HeldWith (fun e => a.Twin setup.options e b) G π (.loose n) :=
  tied_pop_solid.bind_known fun _ _ _ he hv => tied_pop_solid.bind_known fun _ _ _ he' hw =>
    Tied.pure fun _ _ h => ⟨⟨hw.mono h.since, hv.mono (he'.trans h.since)⟩,
      (h.unbase he').unbase he⟩

theorem tied_push {v v' : Value} (h : k.Admits setup.options π.since (v, v')) :
    Tied setup (Held G π s) (push v) (push v') fun _ _ => Held G π (s.push k) :=
  Tied.changes (fun _ => rfl) fun _ q hpre =>
    ⟨{ q with stack := q.stack.push v' }, rfl, hpre.push (h.mono hpre.since)⟩

theorem tied_push_any {v v' : Value} (h : v.Twin setup.options π.since v') :
    Tied setup (Held G π s) (push v) (push v') fun _ _ => Held G π (s.push .any) := tied_push h

theorem tied_push_solid {v v' : Value} (h : v.Twin setup.options π.since v')
    (hv : v.isRef = false) :
    Tied setup (Held G π s) (push v) (push v') fun _ _ => Held G π (s.push .solid) :=
    tied_push ⟨h, hv⟩

theorem tied_pushRef (a : Reference) :
    Tied setup (Held G π s) (pushRef a) (pushRef a) fun _ _ => Held G π (s.push .ref) :=
  tied_push ⟨.ref a, rfl⟩

end

end Exec

end TemplateMachine
