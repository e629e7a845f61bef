import TemplateMachine.Proofs.Run.Component
import TemplateMachine.Proofs.Run.Yield

/-! The code of expressions computes their values. -/

namespace TemplateMachine

/-- The code belongs to a place of a template, whose slots the pose sees. -/
structure Site.Reads (site : Site) (setup : Setup) (k : Coding) (t : Store) (p : Pose) : Prop where
  within : k.Within setup t
  layout : k.layout = site.layout
  sees : t.Sees setup.options.strategy p site.slots

section

variable {setup : Setup} {cells : Cells} {a floor : Nat} {n : ENat} {p q : Pose}
variable {w : World} {t u : Store}
variable {m : Machine} {k : Coding} {code : List Instruction} {site : Site}

namespace Site.Reads

theorem mono (h : site.Reads setup k t p) (hu : t ≤ u) : site.Reads setup k u p :=
  ⟨h.within.mono hu, h.layout, h.sees.mono hu⟩

theorem of_scopeStack (h : site.Reads setup k t p) (hq : q.scopeStack = p.scopeStack) :
    site.Reads setup k t q := ⟨h.within, h.layout, h.sees.of_scopeStack hq⟩

theorem referer (h : site.Reads setup k t p) : k.referer = site.referer := by
  rw [Coding.referer, h.layout, Site.referer]

theorem lookup (cells : Cells) (h : site.Reads setup k t p) :
    k.lookup = (setup.scene cells).lookup :=
  h.within.lookup

end Site.Reads

/-! ### The length of code -/

/-- Code is short in a small program. -/
theorem Stands.length_lt (hm : Stands setup cells a p w t m) (hfits : m.program.Fits)
    (hcode : t.HasCode a code) : code.length < 0x20000000 := by
  have hholds := hm.hasCode hcode
  have hwords := hfits.words
  by_cases hne : code = []
  · rw [hne, List.length_nil]
    omega
  · have hsize := Heap.Holds.le_size hholds hne
    omega

namespace Coding

/-- Every expression has some code. -/
theorem expression_pos {e : Expression} (h : k.expression e code) : 0 < code.length := by
  cases e with
  | value json =>
    obtain ⟨-, -, push, -, rfl⟩ := h
    simp
  | undefined =>
    obtain ⟨push, -, rfl⟩ := h
    simp
  | get head path =>
    obtain ⟨more, -, rfl⟩ := h
    simp
  | unknown name =>
    unfold expression at h
    split at h
    · obtain ⟨args, call, ⟨-, -, -, -, -, rfl⟩, -, rfl⟩ := h
      simp
    · obtain ⟨more, -, rfl⟩ := h
      simp
  | helper name params hash =>
    unfold expression at h
    split at h
    · split at h
      · obtain ⟨-, -, -, -, -, -, -, -, -, ⟨-, -, rfl⟩, rfl⟩ := h
        simp only [List.length_append, List.length_cons]
        omega
      · exact h.elim
    · obtain ⟨-, -, -, -, -, -, -, -, -, ⟨-, -, rfl⟩, rfl⟩ := h
      simp only [List.length_append, List.length_cons]
      omega
  | concat parts =>
    obtain ⟨values, -, rfl⟩ := h
    simp
  | hasBlock symbol =>
    obtain rfl : code = [⟨.hasBlock, symbol, 0, 0⟩] := h
    simp
  | hasBlockParams symbol =>
    obtain rfl : code = _ := h
    simp

theorem expressions_length {es : List Expression} (h : k.expressions es code) :
    es.length ≤ code.length := by
  induction es generalizing code with
  | nil => exact Nat.zero_le _
  | cons e rest ih =>
    obtain ⟨first, more, hfirst, hmore, rfl⟩ := h
    have := expression_pos hfirst
    have := ih hmore
    simp only [List.length_cons, List.length_append]
    omega

end Coding

/-! ### Values -/

theorem UInt32.toNat_ofNat_length {l : Nat} (h : l < 0x20000000) : (UInt32.ofNat l).toNat = l :=
  UInt32.toNat_ofNat_of_lt' (Nat.lt_trans h (by decide))

mutual

/-- The code of an expression pushes its value. -/
theorem leads_expression {a : Nat} {p : Pose} {w : World} {t : Store} {m : Machine}
    {code : List Instruction} (hserves : setup.Serves) (e : Expression)
    (hm : Stands setup cells a p w t m) (hsite : site.Reads setup k t p)
    (hshape : k.expression e code) (hcode : t.HasCode a code) :
    Leads setup .free floor n m (Walk.expression (setup.scene cells) site e w) fun r w' m' =>
      Stands setup cells (a + 4 * code.length) (p.push (.ref r)) w' t m' := by
  have hk := hsite.within.linkage
  cases e with
  | value json =>
    obtain ⟨prim, hprim, hpush⟩ := hshape
    unfold Walk.expression
    rw [hprim]
    exact leads_reference hm hk hpush hcode fun m' hm' => Leads.done hm'
  | undefined => exact leads_reference hm hk hshape hcode fun m' hm' => Leads.done hm'
  | get head path =>
    obtain ⟨more, hmore, rfl⟩ := hshape
    refine leads_getVariable hm hsite.sees hcode fun m hm => ?_
    refine leads_properties hm hk hmore hcode.tail fun m hm => Leads.done (hm.at ?_)
    simp only [List.length_cons]
    omega
  | unknown name =>
    unfold Coding.expression at hshape
    unfold Walk.expression
    rw [hsite.lookup cells, hsite.referer] at hshape
    cases hhelper : (setup.scene cells).lookup.helper? name site.referer with
    | some handle =>
      rw [hhelper] at hshape
      obtain ⟨args, call, hargs, hcall, rfl⟩ := hshape
      obtain ⟨hcode₁, hcode₂⟩ := hcode.append
      have hargs : k.gather ([] : List Reference).length [] args := hargs
      have hnames : ([] : List String).length = ([] : List Reference).length := rfl
      refine leads_gather hm hk hsite.within.wellFormed hnames hargs hcode₁ fun m hm => ?_
      refine (leads_helper hm hk hcall hcode₂ (hserves.helper _ _ _ hhelper)).mono
        fun _ _ _ h => h.at ?_
      rw [List.length_append]
      omega
    | none =>
      rw [hhelper] at hshape
      obtain ⟨more, hmore, rfl⟩ := hshape
      refine leads_getVariable hm hsite.sees hcode fun m hm => ?_
      refine leads_getProperty hm hk hmore hcode.tail fun m hm => Leads.done (hm.at ?_)
      simp only [List.length_cons]
      omega
  | helper name params hash =>
    unfold Coding.expression at hshape
    unfold Walk.expression
    by_cases hname : name = "component"
    · rw [if_pos hname] at hshape ⊢
      rcases params with _ | ⟨_ | ⟨definition, rest⟩⟩
      · exact hshape.elim
      · exact hshape.elim
      · obtain ⟨first, positional, named, args, curry, hfirst, hpositional, hnamed, hargs, hcurry,
          rfl⟩ := hshape
        simp only [List.append_assoc] at hcode
        obtain ⟨hcode₁, hcode⟩ := hcode.append
        obtain ⟨hcode₂, hcode⟩ := hcode.append
        obtain ⟨hcode₃, hcode⟩ := hcode.append
        obtain ⟨hcode₄, hcode₅⟩ := hcode.append
        refine (leads_expression hserves definition hm hsite hfirst hcode₁).bind
          fun d w m _ hm => ?_
        refine (leads_expressions hserves rest hm (hsite.of_scopeStack rfl) hpositional hcode₂).bind
          fun rs w m _ ⟨hlength, hm⟩ => ?_
        refine (leads_namedValues hserves hash hm (hsite.of_scopeStack rfl) hnamed hcode₃).bind
          fun (names, values) w m _ ⟨hnames, hvalues, hm⟩ => ?_
        rw [← Pose.pushAll_append, ← List.map_append] at hm
        rw [← hlength, ← hnames] at hargs
        refine leads_gather hm hk hsite.within.wellFormed hvalues hargs hcode₄ fun m hm => ?_
        rw [← hsite.referer]
        refine (leads_curry hm hk hcurry hcode₅).mono fun _ _ _ h => h.at ?_
        simp only [List.length_append]
        omega
    · rw [if_neg hname] at hshape ⊢
      obtain ⟨handle, positional, named, args, call, hhandle, hpositional, hnamed, hargs, hcall,
        rfl⟩ := hshape
      rw [hsite.lookup cells, hsite.referer] at hhandle
      rw [hhandle]
      simp only [List.append_assoc] at hcode
      obtain ⟨hcode₁, hcode⟩ := hcode.append
      obtain ⟨hcode₂, hcode⟩ := hcode.append
      obtain ⟨hcode₃, hcode₄⟩ := hcode.append
      refine (leads_params? hserves params hm hsite hpositional hcode₁).bind
        fun rs w m _ ⟨hlength, hm⟩ => ?_
      refine (leads_namedValues hserves hash hm (hsite.of_scopeStack rfl) hnamed hcode₂).bind
        fun (names, values) w m _ ⟨hnames, hvalues, hm⟩ => ?_
      rw [← Pose.pushAll_append, ← List.map_append] at hm
      rw [← hlength, ← hnames] at hargs
      refine leads_gather hm hk hsite.within.wellFormed hvalues hargs hcode₃ fun m hm => ?_
      refine (leads_helper hm hk hcall hcode₄ (hserves.helper _ _ _ hhandle)).mono
        fun _ _ _ h => h.at ?_
      simp only [List.length_append]
      omega
  | concat parts =>
    obtain ⟨values, hvalues, rfl⟩ := hshape
    obtain ⟨hcode₁, hcode₂⟩ := hcode.append
    refine Leads.of_fits fun hfits => ?_
    have hcount := Nat.lt_of_le_of_lt (Coding.expressions_length hvalues)
      (hm.length_lt hfits hcode₁)
    refine (leads_expressions hserves parts hm hsite hvalues hcode₁).bind
      fun rs w m _ ⟨hlength, hm⟩ => ?_
    refine leads_concat hm (by rw [UInt32.toNat_ofNat_length hcount, hlength]) hcode₂
      fun m hm => Leads.done (hm.at ?_)
    simp only [List.length_append, List.length_cons, List.length_nil]
    omega
  | hasBlock symbol =>
    obtain rfl : code = [⟨.hasBlock, symbol, 0, 0⟩] := hshape
    exact leads_hasBlock hm hsite.sees hcode fun m hm => Leads.done hm
  | hasBlockParams symbol =>
    unfold Coding.expression at hshape
    subst hshape
    refine (leads_hasBlockParams hserves hm hsite.within hsite.sees hcode).mono
      fun _ _ _ h => h.at ?_
    simp only [List.length_append, List.length_cons, List.length_nil]
termination_by structural e

theorem leads_expressions {a : Nat} {p : Pose} {w : World} {t : Store} {m : Machine}
    {code : List Instruction} (hserves : setup.Serves) (es : List Expression)
    (hm : Stands setup cells a p w t m) (hsite : site.Reads setup k t p)
    (hshape : k.expressions es code) (hcode : t.HasCode a code) :
    Leads setup .free floor n m (Walk.expressions (setup.scene cells) site es w) fun rs w' m' =>
      rs.length = es.length ∧
        Stands setup cells (a + 4 * code.length) (p.pushAll (rs.map .ref)) w' t m' := by
  cases es with
  | nil =>
    obtain rfl : code = [] := hshape
    exact Leads.done ⟨rfl, by simpa using hm⟩
  | cons e rest =>
    obtain ⟨first, more, hfirst, hmore, rfl⟩ := hshape
    obtain ⟨hcode₁, hcode₂⟩ := hcode.append
    refine (leads_expression hserves e hm hsite hfirst hcode₁).bind fun r w m _ hm => ?_
    refine (leads_expressions hserves rest hm (hsite.of_scopeStack rfl) hmore hcode₂).bind
      fun rs w m _ ⟨hlength, hm⟩ => Leads.done ⟨by simp [hlength], ?_⟩
    rw [List.map_cons, Pose.pushAll_cons]
    refine hm.at ?_
    rw [List.length_append]
    omega
termination_by structural es

theorem leads_params? {a : Nat} {p : Pose} {w : World} {t : Store} {m : Machine}
    {code : List Instruction} (hserves : setup.Serves) (params : Option (List Expression))
    (hm : Stands setup cells a p w t m) (hsite : site.Reads setup k t p)
    (hshape : k.params? params code) (hcode : t.HasCode a code) :
    Leads setup .free floor n m (Walk.params? (setup.scene cells) site params w) fun rs w' m' =>
      rs.length = (params.getD []).length ∧
        Stands setup cells (a + 4 * code.length) (p.pushAll (rs.map .ref)) w' t m' := by
  cases params with
  | none =>
    obtain rfl : code = [] := hshape
    exact Leads.done ⟨rfl, by simpa using hm⟩
  | some es => exact leads_expressions hserves es hm hsite hshape hcode
termination_by structural params

theorem leads_namedValues {a : Nat} {p : Pose} {w : World} {t : Store} {m : Machine}
    {code : List Instruction} (hserves : setup.Serves) (hash : Option (HashOf Expression))
    (hm : Stands setup cells a p w t m) (hsite : site.Reads setup k t p)
    (hshape : k.namedValues hash code) (hcode : t.HasCode a code) :
    Leads setup .free floor n m (Walk.namedValues (setup.scene cells) site hash w)
      fun named w' m' =>
      named.1 = HashOf.namesOf hash ∧ named.1.length = named.2.length ∧
        Stands setup cells (a + 4 * code.length) (p.pushAll (named.2.map .ref)) w' t m' := by
  rcases hash with _ | ⟨names, values⟩
  · obtain rfl : code = [] := hshape
    exact Leads.done ⟨rfl, rfl, by simpa using hm⟩
  · obtain ⟨hnames, hvalues⟩ := hshape
    refine (leads_expressions hserves values hm hsite hvalues hcode).bind
      fun rs w m _ ⟨hlength, hm⟩ =>
        Leads.done ⟨rfl, (hnames hsite.within.wellFormed).trans hlength.symm, hm⟩
termination_by structural hash

end

/-- The code of arguments gathers their values. -/
theorem leads_args (hserves : setup.Serves) {params : List Expression} {hash : Option Hash}
    (hm : Stands setup cells a p w t m) (hsite : site.Reads setup k t p)
    (hshape : k.args params hash code) (hcode : t.HasCode a code) :
    Leads setup .free floor n m (Walk.args (setup.scene cells) site params hash w) fun args w' m' =>
      Stands setup cells (a + 4 * code.length) (p.push (.args args)) w' t m' := by
  obtain ⟨positional, named, gathered, hpositional, hnamed, hgathered, rfl⟩ := hshape
  rw [List.append_assoc] at hcode
  obtain ⟨hcode₁, hcode⟩ := hcode.append
  obtain ⟨hcode₂, hcode₃⟩ := hcode.append
  unfold Walk.args
  refine (leads_expressions hserves params hm hsite hpositional hcode₁).bind
    fun rs w m _ ⟨hlength, hm⟩ => ?_
  refine (leads_namedValues hserves hash hm (hsite.of_scopeStack rfl) hnamed hcode₂).bind
    fun (names, values) w m _ ⟨hnames, hvalues, hm⟩ => ?_
  rw [← Pose.pushAll_append, ← List.map_append] at hm
  rw [← hlength, ← hnames] at hgathered
  refine leads_gather hm hsite.within.linkage hsite.within.wellFormed hvalues hgathered hcode₃
    fun m hm => Leads.done (hm.at ?_)
  simp only [List.length_append]
  omega

end

end TemplateMachine
