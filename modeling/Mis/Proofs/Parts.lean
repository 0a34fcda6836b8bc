import Mis.Proofs.Agreement

/-!
The parts of a body: its statements and expressions at any depth, and the places
where a value is asked for. The walk over a body comes to every part of it. A
body that is lowered has each of its statements lowered, into code that stands
together in one block.
-/
namespace Mis

section Parts

variable {ι : Type}

mutual

/-- The expression and all that it is made of, callees among them. -/
def Expr.parts : Expr ι → List (Expr ι)
  | .literal i v => [.literal i v]
  | .name i x => [.name i x]
  | .call i callee args => .call i callee args :: (Expr.parts callee ++ Expr.partsAll args)

def Expr.partsAll : List (Expr ι) → List (Expr ι)
  | [] => []
  | e :: es => Expr.parts e ++ Expr.partsAll es

end

mutual

/-- The statement and all statements in its blocks. -/
def Stmt.parts : Stmt ι → List (Stmt ι)
  | .declare i b x e => [.declare i b x e]
  | .assign i x e => [.assign i x e]
  | .branch i c yes none => .branch i c yes none :: Stmt.partsAll yes
  | .branch i c yes (some no) =>
    .branch i c yes (some no) :: (Stmt.partsAll yes ++ Stmt.partsAll no)
  | .loop i c body => .loop i c body :: Stmt.partsAll body
  | .leave i e => [.leave i e]
  | .call i e => [.call i e]

def Stmt.partsAll : List (Stmt ι) → List (Stmt ι)
  | [] => []
  | s :: ss => Stmt.parts s ++ Stmt.partsAll ss

end

/-- The expressions that a statement itself has, without those in its blocks. -/
def Stmt.exprs : Stmt ι → List (Expr ι)
  | .declare _ _ _ e | .assign _ _ e | .leave _ (some e) | .call _ e => [e]
  | .branch _ c _ _ | .loop _ c _ => [c]
  | .leave _ none => []

/-- The expressions whose value a statement uses. A call that stands alone may have none. -/
def Stmt.values : Stmt ι → List (Expr ι)
  | .declare _ _ _ e | .assign _ _ e | .leave _ (some e) => [e]
  | .branch _ c _ _ | .loop _ c _ => [c]
  | .leave _ none | .call _ _ => []

def Expr.args : Expr ι → List (Expr ι)
  | .call _ _ args => args
  | .literal _ _ | .name _ _ => []

namespace FunctionDecl

/-- All expressions of a function. -/
def exprs (f : FunctionDecl ι) : List (Expr ι) :=
  (Stmt.partsAll f.body).flatMap fun s => s.exprs.flatMap Expr.parts

/-- The expressions that stand where a value is asked for, by a statement or by a call. -/
def values (f : FunctionDecl ι) : List (Expr ι) :=
  (Stmt.partsAll f.body).flatMap Stmt.values ++ f.exprs.flatMap Expr.args

theorem mem_exprs {f : FunctionDecl ι} {e : Expr ι} :
    e ∈ f.exprs ↔ ∃ s ∈ Stmt.partsAll f.body, ∃ r ∈ s.exprs, e ∈ r.parts := by
  simp only [exprs, List.mem_flatMap]

end FunctionDecl

theorem Expr.self_mem_parts (e : Expr ι) : e ∈ e.parts := by
  cases e <;> exact List.mem_cons_self

theorem Expr.mem_partsAll {e : Expr ι} {es : List (Expr ι)} :
    e ∈ Expr.partsAll es ↔ ∃ a ∈ es, e ∈ a.parts := by
  induction es with
  | nil => simp [Expr.partsAll]
  | cons a es ih => simp [Expr.partsAll, ih]

mutual

theorem Expr.mem_parts_trans {a b : Expr ι} (hb : b ∈ a.parts) :
    ∀ e : Expr ι, a ∈ e.parts → b ∈ e.parts
  | .literal _ _, ha | .name _ _, ha => by
      rw [List.mem_singleton.mp ha] at hb
      exact hb
  | .call i callee args, ha => by
      obtain rfl | ha := List.mem_cons.mp ha
      · exact hb
      · refine List.mem_cons_of_mem _ (List.mem_append.mpr ?_)
        exact (List.mem_append.mp ha).imp (Expr.mem_parts_trans hb callee)
          (Expr.mem_partsAll_trans hb args)

theorem Expr.mem_partsAll_trans {a b : Expr ι} (hb : b ∈ a.parts) :
    ∀ es : List (Expr ι), a ∈ Expr.partsAll es → b ∈ Expr.partsAll es
  | [], ha => by cases ha
  | e :: es, ha => by
      refine List.mem_append.mpr ?_
      exact (List.mem_append.mp ha).imp (Expr.mem_parts_trans hb e) (Expr.mem_partsAll_trans hb es)

end

theorem Expr.mem_parts_of_mem_args {e a : Expr ι} (h : a ∈ e.args) : a ∈ e.parts := by
  cases e with
  | literal _ _ | name _ _ => cases h
  | call i callee args =>
      refine List.mem_cons_of_mem _ (List.mem_append_right _ ?_)
      exact Expr.mem_partsAll.mpr ⟨a, h, a.self_mem_parts⟩

theorem FunctionDecl.mem_exprs_of_mem_args {f : FunctionDecl ι} {e a : Expr ι} (he : e ∈ f.exprs)
    (ha : a ∈ e.args) : a ∈ f.exprs := by
  obtain ⟨s, hs, r, hr, he⟩ := FunctionDecl.mem_exprs.mp he
  exact FunctionDecl.mem_exprs.mpr
    ⟨s, hs, r, hr, Expr.mem_parts_trans (Expr.mem_parts_of_mem_args ha) r he⟩

end Parts

/-! The walk. -/

section Demands

mutual

theorem Stmt.mem_demands_of_mem_parts {s : Stmt NodeId} {d : Demand} (hd : d ∈ s.demands) :
    ∀ r : Stmt NodeId, s ∈ r.parts → d ∈ r.demands
  | .declare _ _ _ _, hs | .assign _ _ _, hs | .leave _ _, hs | .call _ _, hs => by
      rw [List.mem_singleton.mp hs] at hd
      exact hd
  | .branch i c yes none, hs => by
      obtain rfl | hs := List.mem_cons.mp hs
      · exact hd
      · exact List.mem_append_right _ (Stmt.mem_demandsAll_of_mem_partsAll hd yes hs)
  | .branch i c yes (some no), hs => by
      obtain rfl | hs := List.mem_cons.mp hs
      · exact hd
      · obtain hs | hs := List.mem_append.mp hs
        · refine List.mem_append_left _ (List.mem_append_right _ ?_)
          exact Stmt.mem_demandsAll_of_mem_partsAll hd yes hs
        · exact List.mem_append_right _ (Stmt.mem_demandsAll_of_mem_partsAll hd no hs)
  | .loop i c body, hs => by
      obtain rfl | hs := List.mem_cons.mp hs
      · exact hd
      · exact List.mem_append_right _ (Stmt.mem_demandsAll_of_mem_partsAll hd body hs)

theorem Stmt.mem_demandsAll_of_mem_partsAll {s : Stmt NodeId} {d : Demand} (hd : d ∈ s.demands) :
    ∀ ss : List (Stmt NodeId), s ∈ Stmt.partsAll ss → d ∈ Stmt.demandsAll ss
  | [], hs => by cases hs
  | r :: rs, hs => by
      refine List.mem_append.mpr ?_
      exact (List.mem_append.mp hs).imp (Stmt.mem_demands_of_mem_parts hd r)
        (Stmt.mem_demandsAll_of_mem_partsAll hd rs)

end

end Demands

section Walk

variable {t : SymbolTable} {types : Table NodeId Ty}

mutual

/-- The walk over a statement goes over each of its parts, in some scope. -/
theorem Stmt.exists_visits_of_mem_parts {s : Stmt NodeId} :
    ∀ (r : Stmt NodeId) (σ : Scope), s ∈ r.parts →
      ∃ τ, ∀ v ∈ s.visits t types τ, v ∈ r.visits t types σ
  | .declare _ _ _ _, σ, hs | .assign _ _ _, σ, hs | .leave _ _, σ, hs | .call _ _, σ, hs => by
      rw [List.mem_singleton.mp hs]
      exact ⟨σ, fun v hv => hv⟩
  | .branch i c yes none, σ, hs => by
      obtain rfl | hs := List.mem_cons.mp hs
      · exact ⟨σ, fun v hv => hv⟩
      · obtain ⟨τ, hτ⟩ := Stmt.exists_visits_of_mem_partsAll yes σ hs
        exact ⟨τ, fun v hv => List.mem_append_right _ (hτ v hv)⟩
  | .branch i c yes (some no), σ, hs => by
      obtain rfl | hs := List.mem_cons.mp hs
      · exact ⟨σ, fun v hv => hv⟩
      · obtain hs | hs := List.mem_append.mp hs
        · obtain ⟨τ, hτ⟩ := Stmt.exists_visits_of_mem_partsAll yes σ hs
          exact ⟨τ, fun v hv => List.mem_append_left _ (List.mem_append_right _ (hτ v hv))⟩
        · obtain ⟨τ, hτ⟩ :=
            Stmt.exists_visits_of_mem_partsAll no (Stmt.scopeAfterAll t types σ yes) hs
          exact ⟨τ, fun v hv => List.mem_append_right _ (hτ v hv)⟩
  | .loop i c body, σ, hs => by
      obtain rfl | hs := List.mem_cons.mp hs
      · exact ⟨σ, fun v hv => hv⟩
      · obtain ⟨τ, hτ⟩ := Stmt.exists_visits_of_mem_partsAll body σ hs
        exact ⟨τ, fun v hv => List.mem_append_right _ (hτ v hv)⟩

theorem Stmt.exists_visits_of_mem_partsAll {s : Stmt NodeId} :
    ∀ (rs : List (Stmt NodeId)) (σ : Scope), s ∈ Stmt.partsAll rs →
      ∃ τ, ∀ v ∈ s.visits t types τ, v ∈ Stmt.visitsAll t types σ rs
  | [], _, hs => by cases hs
  | r :: rs, σ, hs => by
      obtain hs | hs := List.mem_append.mp hs
      · obtain ⟨τ, hτ⟩ := Stmt.exists_visits_of_mem_parts r σ hs
        exact ⟨τ, fun v hv => List.mem_append_left _ (hτ v hv)⟩
      · obtain ⟨τ, hτ⟩ := Stmt.exists_visits_of_mem_partsAll rs (r.scopeAfter t types σ) hs
        exact ⟨τ, fun v hv => List.mem_append_right _ (hτ v hv)⟩

end

theorem Stmt.exists_visits_of_mem_exprs {s : Stmt NodeId} {e : Expr NodeId} (h : e ∈ s.exprs)
    (σ : Scope) : ∃ τ, ∀ v ∈ e.visits τ, v ∈ s.visits t types σ := by
  cases s with
  | declare i storage x init =>
      rw [List.mem_singleton.mp h]
      refine ⟨σ.set x (declaredType t types σ i init), fun v hv => ?_⟩
      cases storage with
      | shared => exact List.mem_cons_of_mem _ hv
      | own => exact List.mem_append_left _ (List.mem_cons_of_mem _ hv)
  | assign _ _ _ | call _ _ =>
      rw [List.mem_singleton.mp h]
      exact ⟨σ, fun v hv => hv⟩
  | leave _ value =>
      cases value with
      | none => cases h
      | some _ =>
          rw [List.mem_singleton.mp h]
          exact ⟨σ, fun v hv => hv⟩
  | branch _ c yes no =>
      rw [List.mem_singleton.mp h]
      refine ⟨σ, fun v hv => ?_⟩
      cases no with
      | none => exact List.mem_append_left _ hv
      | some no => exact List.mem_append_left _ (List.mem_append_left _ hv)
  | loop _ c body =>
      rw [List.mem_singleton.mp h]
      exact ⟨σ, fun v hv => List.mem_append_left _ hv⟩

theorem Visit.Granted.exists_name {σ : Scope} {id : NodeId} {callee : Expr NodeId}
    {args : List (Expr NodeId)} (h : Visit.Granted t ⟨σ, .call id callee args⟩) :
    ∃ i x, callee = .name i x := by
  obtain ⟨s, hs⟩ := h
  obtain ⟨x, _, hname, _⟩ := calledSymbol_eq_ok hs
  cases callee with
  | name i y => exact ⟨i, y, rfl⟩
  | literal _ _ | call _ _ _ => cases hname

mutual

/-- A callee is a name, so all other parts of an expression are arguments. -/
theorem Expr.visits_of_mem_parts {a : Expr NodeId} {σ : Scope} :
    ∀ e : Expr NodeId, (∀ v ∈ e.visits σ, v.Granted t) → a ∈ e.parts →
      ∀ v ∈ a.visits σ, v ∈ e.visits σ
  | .literal _ _, _, ha, v, hv | .name _ _, _, ha, v, hv => by
      rw [List.mem_singleton.mp ha] at hv
      exact hv
  | .call i callee args, hgranted, ha, v, hv => by
      obtain rfl | ha := List.mem_cons.mp ha
      · exact hv
      · obtain ⟨j, x, rfl⟩ := Visit.Granted.exists_name (hgranted _ List.mem_cons_self)
        obtain ha | ha := List.mem_append.mp ha
        · rw [List.mem_singleton.mp ha] at hv
          cases hv
        · refine List.mem_cons_of_mem _ (Expr.visits_of_mem_partsAll args ?_ ha v hv)
          exact fun v hv => hgranted v (List.mem_cons_of_mem _ hv)

theorem Expr.visits_of_mem_partsAll {a : Expr NodeId} {σ : Scope} :
    ∀ es : List (Expr NodeId), (∀ v ∈ Expr.visitsAll σ es, v.Granted t) → a ∈ Expr.partsAll es →
      ∀ v ∈ a.visits σ, v ∈ Expr.visitsAll σ es
  | [], _, ha, _, _ => by cases ha
  | e :: es, hgranted, ha, v, hv => by
      obtain ⟨he, hes⟩ := List.forall_mem_append.mp hgranted
      obtain ha | ha := List.mem_append.mp ha
      · exact List.mem_append_left _ (Expr.visits_of_mem_parts e he ha v hv)
      · exact List.mem_append_right _ (Expr.visits_of_mem_partsAll es hes ha v hv)

end

namespace FunctionDecl

variable {globals : Scope} {f : FunctionDecl NodeId} {frame : Frame}

/-- The walk over a function goes over each of its expressions, in some scope. -/
theorem exists_visits_of_mem_exprs (h : f.frame t types globals = .ok frame) {e : Expr NodeId}
    (he : e ∈ f.exprs) : ∃ σ, ∀ v ∈ e.visits σ, v ∈ f.visits t types globals := by
  obtain ⟨s, hs, r, hr, he⟩ := mem_exprs.mp he
  obtain ⟨σ, hσ⟩ := Stmt.exists_visits_of_mem_partsAll f.body (f.startScope globals) hs
  obtain ⟨τ, hτ⟩ := Stmt.exists_visits_of_mem_exprs hr σ
  have hroot : ∀ v ∈ r.visits τ, v ∈ f.visits t types globals := fun v hv => hσ v (hτ v hv)
  refine ⟨τ, fun v hv => hroot v ?_⟩
  exact Expr.visits_of_mem_parts r (fun v hv => (framed_of_frame h).granted v (hroot v hv)) he v hv

/-- A run over the demands of a body that comes to a demand makes a stop for it. -/
theorem visit_of_comesTo {d : Demand} {before : Frame} {site : Site}
    (h : ComesTo (Frame.meet t types) (Frame.start globals f) (Stmt.demandsAll f.body) d before)
    (hsite : d.site? t types before.scope = some site) :
    ⟨before.scope, site⟩ ∈ f.visits t types globals := by
  obtain ⟨demands, after, hsplit, hbefore⟩ := h
  rw [visits, ← Frame.scope_start, ← Stmt.visitsAlong_demandsAll, hsplit, visitsAlong_append,
    ← (Frame.meets_of_foldlM hbefore).scope_eq]
  refine List.mem_append_right _ (List.mem_append_left _ ?_)
  rw [Demand.visits, hsite]
  exact List.mem_singleton_self _

end FunctionDecl

end Walk

/-! Lowering. -/

namespace C

mutual

/-- The blocks of a statement, at any depth. -/
def Stmt.blocks : Stmt → List (List Stmt)
  | .branch _ yes none => yes :: Stmt.blocksAll yes
  | .branch _ yes (some no) => yes :: Stmt.blocksAll yes ++ no :: Stmt.blocksAll no
  | .loop body => body :: Stmt.blocksAll body
  | .call _ _ | .assign _ _ | .leaveLoopUnless _ | .leave | .comment _ => []

def Stmt.blocksAll : List Stmt → List (List Stmt)
  | [] => []
  | s :: ss => Stmt.blocks s ++ Stmt.blocksAll ss

end

/-- The statements `part` stand together in `code` or in one of its blocks. -/
def Embeds (code part : List Stmt) : Prop :=
  ∃ block ∈ code :: Stmt.blocksAll code, part <:+: block

namespace Embeds

variable {code part : List Stmt}

theorem refl (code : List Stmt) : Embeds code code :=
  ⟨code, List.mem_cons_self, List.infix_refl code⟩

theorem blocksAll_append (code rest : List Stmt) :
    Stmt.blocksAll (code ++ rest) = Stmt.blocksAll code ++ Stmt.blocksAll rest := by
  induction code with
  | nil => rfl
  | cons s code ih => simp only [List.cons_append, Stmt.blocksAll, ih, List.append_assoc]

theorem append (h : Embeds code part) (before after : List Stmt) :
    Embeds (before ++ code ++ after) part := by
  obtain ⟨block, hblock, hpart⟩ := h
  obtain rfl | hblock := List.mem_cons.mp hblock
  · exact ⟨_, List.mem_cons_self, hpart.trans ⟨before, after, rfl⟩⟩
  · refine ⟨block, List.mem_cons_of_mem _ ?_, hpart⟩
    rw [blocksAll_append, blocksAll_append]
    exact List.mem_append_left _ (List.mem_append_right _ hblock)

/-- What stands in a block of the last statement. -/
theorem of_last {s : Stmt} (h : Embeds code part)
    (hcode : ∀ block ∈ code :: Stmt.blocksAll code, block ∈ s.blocks) (before : List Stmt) :
    Embeds (before ++ [s]) part := by
  obtain ⟨block, hblock, hpart⟩ := h
  refine ⟨block, List.mem_cons_of_mem _ ?_, hpart⟩
  rw [blocksAll_append]
  exact List.mem_append_right _ (List.mem_append_left _ (hcode block hblock))

end Embeds

end C

section Lowering

variable {frame : Frame}

mutual

theorem Stmt.exists_lower_of_mem_parts {s : Stmt NodeId} :
    ∀ (r : Stmt NodeId) (out : List C.Stmt), r.lower frame = .ok out → s ∈ r.parts →
      ∃ part, s.lower frame = .ok part ∧ C.Embeds out part
  | .declare _ _ _ _, out, h, hs | .assign _ _ _, out, h, hs | .leave _ _, out, h, hs
  | .call _ _, out, h, hs => by
      rw [List.mem_singleton.mp hs]
      exact ⟨out, h, .refl out⟩
  | .branch i c yes none, out, h, hs => by
      obtain rfl | hs := List.mem_cons.mp hs
      · exact ⟨out, h, .refl out⟩
      · cases Stmt.lowersTo_of_lower h with
        | branch _ _ hyes =>
            obtain ⟨part, hpart, hcode⟩ := Stmt.exists_lower_of_mem_partsAll yes _ hyes hs
            refine ⟨part, hpart, hcode.of_last ?_ _⟩
            exact fun _ hblock => hblock
  | .branch i c yes (some no), out, h, hs => by
      obtain rfl | hs := List.mem_cons.mp hs
      · exact ⟨out, h, .refl out⟩
      · cases Stmt.lowersTo_of_lower h with
        | branchElse _ _ hyes hno =>
            obtain hs | hs := List.mem_append.mp hs
            · obtain ⟨part, hpart, hcode⟩ := Stmt.exists_lower_of_mem_partsAll yes _ hyes hs
              refine ⟨part, hpart, hcode.of_last ?_ _⟩
              exact fun _ hblock => List.mem_append_left _ hblock
            · obtain ⟨part, hpart, hcode⟩ := Stmt.exists_lower_of_mem_partsAll no _ hno hs
              refine ⟨part, hpart, hcode.of_last ?_ _⟩
              exact fun _ hblock => List.mem_append_right _ hblock
  | .loop i c body, out, h, hs => by
      obtain rfl | hs := List.mem_cons.mp hs
      · exact ⟨out, h, .refl out⟩
      · cases Stmt.lowersTo_of_lower h with
        | @loop _ _ _ calls _ value _ _ hbody =>
            obtain ⟨part, hpart, hcode⟩ := Stmt.exists_lower_of_mem_partsAll body _ hbody hs
            -- the body stands behind the test
            have hround := hcode.append (calls ++ [.leaveLoopUnless value]) []
            rw [List.append_nil, List.append_assoc, List.singleton_append] at hround
            refine ⟨part, hpart, hround.of_last ?_ []⟩
            exact fun _ hblock => hblock

/-- Each statement of a lowered body is lowered, and its code stands together. -/
theorem Stmt.exists_lower_of_mem_partsAll {s : Stmt NodeId} :
    ∀ (rs : List (Stmt NodeId)) (out : List C.Stmt), Stmt.lowerAll frame rs = .ok out →
      s ∈ Stmt.partsAll rs → ∃ part, s.lower frame = .ok part ∧ C.Embeds out part
  | [], _, _, hs => by cases hs
  | r :: rs, out, h, hs => by
      obtain ⟨first, more, hfirst, hmore, rfl⟩ := Stmt.lowerAll_cons_eq_ok h
      obtain hs | hs := List.mem_append.mp hs
      · obtain ⟨part, hpart, hcode⟩ := Stmt.exists_lower_of_mem_parts r first hfirst hs
        exact ⟨part, hpart, hcode.append [] more⟩
      · obtain ⟨part, hpart, hcode⟩ := Stmt.exists_lower_of_mem_partsAll rs more hmore hs
        have hall := hcode.append first []
        rw [List.append_nil] at hall
        exact ⟨part, hpart, hall⟩

end

/-- A lowered statement has found an operand for each value that it uses. -/
theorem Stmt.exists_valueOf_of_mem_values {s : Stmt NodeId} {out : List C.Stmt} {e : Expr NodeId}
    (h : s.lower frame = .ok out) (he : e ∈ s.values) : ∃ o, frame.valueOf e = .ok o := by
  cases Stmt.lowersTo_of_lower h with
  | declare _ _ hvalue | assign _ hvalue | branch _ hvalue _ | branchElse _ hvalue _ _
  | loop _ hvalue _ | leaveWith _ _ hvalue =>
      rw [List.mem_singleton.mp he]
      exact ⟨_, hvalue⟩
  | leave | call _ => cases he

end Lowering

end Mis
