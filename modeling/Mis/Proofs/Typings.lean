import Mis.Proofs.Program

/-!
What typing the writes of a module makes of its table of types. With distinct
labels the table holds for every write the type that its value was given, and
the scope in which the value was typed is the scope of the walk before the write.
-/
namespace Mis

/-- A run over `as` that starts in `s` is in `s'` when it comes to `a`. -/
def ComesTo {ε S A : Type} (step : S → A → Except ε S) (s : S) (as : List A) (a : A) (s' : S) :
    Prop :=
  ∃ before after, as = before ++ a :: after ∧ before.foldlM step s = .ok s'

section Runs

variable {ε S A : Type} {step : S → A → Except ε S} {s s' r : S} {as bs : List A} {a : A}

theorem foldlM_append_eq_ok :
    (as ++ bs).foldlM step s = .ok r ↔
      ∃ s', as.foldlM step s = .ok s' ∧ bs.foldlM step s' = .ok r := by
  rw [List.foldlM_append]
  exact bind_eq_ok

theorem ComesTo.append_left (h : ComesTo step s as a s') (bs : List A) :
    ComesTo step s (as ++ bs) a s' := by
  obtain ⟨before, after, rfl, hbefore⟩ := h
  exact ⟨before, after ++ bs, by simp, hbefore⟩

theorem ComesTo.append_right (has : as.foldlM step s = .ok s') (h : ComesTo step s' bs a r) :
    ComesTo step s (as ++ bs) a r := by
  obtain ⟨before, after, rfl, hbefore⟩ := h
  exact ⟨as ++ before, after, by simp, foldlM_append_eq_ok.mpr ⟨s', has, hbefore⟩⟩

/-- A run that ends well comes to everything in the list and takes the step there. -/
theorem exists_comesTo (h : as.foldlM step s = .ok r) (ha : a ∈ as) :
    ∃ s' next, ComesTo step s as a s' ∧ step s' a = .ok next := by
  obtain ⟨before, after, rfl⟩ := List.append_of_mem ha
  obtain ⟨s', hbefore, hafter⟩ := foldlM_append_eq_ok.mp h
  rw [List.foldlM_cons] at hafter
  obtain ⟨next, hnext, _⟩ := bind_eq_ok.mp hafter
  exact ⟨s', next, ⟨before, after, rfl, hbefore⟩, hnext⟩

end Runs

namespace Typings

variable {t : SymbolTable} {a b : Typings}

/-- The scope in which the walk looks at the value of a write of type `T`. -/
def scopeOf (σ : Scope) (T : Ty) (w : Write) : Scope :=
  if w.declares then σ.set w.name (some T) else σ

theorem record_eq_ok {w : Write} (h : a.record t w = .ok b) :
    ∃ T, w.value.valueType t a.scope = .ok T ∧ b.scope = scopeOf a.scope T w ∧
      b.types = a.types ++ [(w.id, T)] := by
  obtain ⟨T, hT, h⟩ := bind_eq_ok.mp h
  cases h
  exact ⟨T, hT, rfl, rfl⟩

theorem types_of_foldlM {ws : List Write} (h : ws.foldlM (record t) a = .ok b) :
    ∃ more, b.types = a.types ++ more ∧ more.map (·.1) = ws.map (·.id) := by
  induction ws generalizing a with
  | nil =>
      cases h
      exact ⟨[], by simp, rfl⟩
  | cons w ws ih =>
      rw [List.foldlM_cons] at h
      obtain ⟨c, hc, h⟩ := bind_eq_ok.mp h
      obtain ⟨T, _, _, htypes⟩ := record_eq_ok hc
      obtain ⟨more, hmore, hids⟩ := ih h
      refine ⟨(w.id, T) :: more, ?_, ?_⟩
      · rw [hmore, htypes, List.append_assoc]
        rfl
      · rw [List.map_cons, List.map_cons, hids]

theorem mem_types_of_foldlM {ws : List Write} (h : ws.foldlM (record t) a = .ok b)
    {p : NodeId × Ty} (hp : p ∈ a.types) : p ∈ b.types := by
  obtain ⟨more, hmore, _⟩ := types_of_foldlM h
  rw [hmore]
  exact List.mem_append_left _ hp

end Typings

/-- What is known about a run of typing over `ws` once its types are in the table. -/
structure Typings.Follows (t : SymbolTable) (types : Table NodeId Ty) (ws : List Write)
    (vs : List Visit) (after : Scope) (a b : Typings) : Prop where
  scope_eq : b.scope = after
  typed : ∀ w ∈ ws, ∃ c T, ComesTo (Typings.record t) a ws w c ∧
    w.value.valueType t c.scope = .ok T ∧ types.get? w.id = some T ∧
    (∀ v ∈ w.value.visits (Typings.scopeOf c.scope T w), v ∈ vs) ∧
    (w.declares = true → ⟨c.scope, .declare w.name (some T)⟩ ∈ vs)

namespace Typings.Follows

variable {t : SymbolTable} {types : Table NodeId Ty} {ws ws' : List Write} {vs vs' : List Visit}
  {middle after : Scope} {a b c : Typings}

theorem nil (a : Typings) : Follows t types [] vs a.scope a a where
  scope_eq := rfl
  typed := by simp

theorem mono (h : Follows t types ws vs after a b) (hvs : ∀ v ∈ vs, v ∈ vs') :
    Follows t types ws vs' after a b where
  scope_eq := h.scope_eq
  typed := by
    intro w hw
    obtain ⟨c, T, hcomes, hT, hget, hvisits, hdeclares⟩ := h.typed w hw
    exact ⟨c, T, hcomes, hT, hget, fun v hv => hvs v (hvisits v hv),
      fun hdeclare => hvs _ (hdeclares hdeclare)⟩

theorem append (h : Follows t types ws vs middle a b) (hws : ws.foldlM (Typings.record t) a = .ok b)
    (h' : Follows t types ws' vs after b c) :
    Follows t types (ws ++ ws') vs after a c where
  scope_eq := h'.scope_eq
  typed := by
    intro w hw
    obtain hw | hw := List.mem_append.mp hw
    · obtain ⟨d, T, hcomes, hrest⟩ := h.typed w hw
      exact ⟨d, T, hcomes.append_left ws', hrest⟩
    · obtain ⟨d, T, hcomes, hrest⟩ := h'.typed w hw
      exact ⟨d, T, ComesTo.append_right hws hcomes, hrest⟩

theorem singleton {w : Write} {T : Ty} (hT : w.value.valueType t a.scope = .ok T)
    (hget : types.get? w.id = some T) (hscope : b.scope = after)
    (hvisits : ∀ v ∈ w.value.visits (scopeOf a.scope T w), v ∈ vs)
    (hdeclares : w.declares = true → ⟨a.scope, .declare w.name (some T)⟩ ∈ vs) :
    Follows t types [w] vs after a b where
  scope_eq := hscope
  typed := by
    intro w' hw
    rw [List.mem_singleton.mp hw]
    exact ⟨a, T, ⟨[], [], rfl, rfl⟩, hT, hget, hvisits, hdeclares⟩

end Typings.Follows

section Follow

variable {t : SymbolTable} {types : Table NodeId Ty}

/-- A write is typed in the scope before it, and the type goes to the table. -/
theorem Typings.exists_of_record {w : Write} {a b : Typings}
    (h : [w].foldlM (Typings.record t) a = .ok b)
    (hrecorded : ∀ p ∈ b.types, types.get? p.1 = some p.2) :
    ∃ T, w.value.valueType t a.scope = .ok T ∧ types.get? w.id = some T ∧
      b.scope = Typings.scopeOf a.scope T w := by
  rw [List.foldlM_cons] at h
  obtain ⟨c, hc, h⟩ := bind_eq_ok.mp h
  cases h
  obtain ⟨T, hT, hscope, htypes⟩ := Typings.record_eq_ok hc
  refine ⟨T, hT, hrecorded (w.id, T) ?_, hscope⟩
  rw [htypes]
  exact List.mem_append_right _ (List.mem_singleton_self _)

theorem declaredType_of_get? {σ : Scope} {id : NodeId} {e : Expr NodeId} {T : Ty}
    (h : types.get? id = some T) : declaredType t types σ id e = some T := by
  rw [declaredType, h]
  rfl

mutual

theorem Stmt.follows_writes :
    ∀ (s : Stmt NodeId) (a b : Typings), s.writes.foldlM (Typings.record t) a = .ok b →
      (∀ p ∈ b.types, types.get? p.1 = some p.2) →
        Typings.Follows t types s.writes (s.visits t types a.scope)
          (s.scopeAfter t types a.scope) a b
  | .declare i .shared x e, a, b, h, hrecorded => by
      obtain ⟨T, hT, hget, hscope⟩ := Typings.exists_of_record h hrecorded
      rw [Stmt.visits, Stmt.scopeAfter, declaredType_of_get? hget]
      exact .singleton hT hget hscope (fun v hv => List.mem_cons_of_mem _ hv)
        fun _ => List.mem_cons_self
  | .declare i .own x e, a, b, h, hrecorded => by
      obtain ⟨T, hT, hget, hscope⟩ := Typings.exists_of_record h hrecorded
      rw [Stmt.visits, Stmt.scopeAfter, declaredType_of_get? hget]
      exact .singleton hT hget hscope
        (fun v hv => List.mem_append_left _ (List.mem_cons_of_mem _ hv))
        fun _ => List.mem_append_left _ List.mem_cons_self
  | .assign i x e, a, b, h, hrecorded => by
      obtain ⟨T, hT, hget, hscope⟩ := Typings.exists_of_record h hrecorded
      refine .singleton hT hget hscope (fun v hv => hv) ?_
      intro hdeclares
      cases hdeclares
  | .branch _ c yes none, a, b, h, hrecorded => by
      have hyes := Stmt.follows_writesAll yes a b h hrecorded
      exact hyes.mono fun v hv => List.mem_append_right _ hv
  | .branch _ c yes (some no), a, b, h, hrecorded => by
      obtain ⟨middle, hfirst, hsecond⟩ := foldlM_append_eq_ok.mp h
      have hyes := Stmt.follows_writesAll yes a middle hfirst
        fun p hp => hrecorded p (Typings.mem_types_of_foldlM hsecond hp)
      have hno := Stmt.follows_writesAll no middle b hsecond hrecorded
      rw [hyes.scope_eq] at hno
      exact (hyes.mono fun v hv => List.mem_append_left _ (List.mem_append_right _ hv)).append
        hfirst (hno.mono fun v hv => List.mem_append_right _ hv)
  | .loop _ c body, a, b, h, hrecorded => by
      have hbody := Stmt.follows_writesAll body a b h hrecorded
      exact hbody.mono fun v hv => List.mem_append_right _ hv
  | .leave _ none, a, b, h, hrecorded | .leave _ (some e), a, b, h, hrecorded
  | .call _ e, a, b, h, hrecorded => by
      cases h
      exact Typings.Follows.nil a

theorem Stmt.follows_writesAll :
    ∀ (ss : List (Stmt NodeId)) (a b : Typings),
      (Stmt.writesAll ss).foldlM (Typings.record t) a = .ok b →
      (∀ p ∈ b.types, types.get? p.1 = some p.2) →
        Typings.Follows t types (Stmt.writesAll ss) (Stmt.visitsAll t types a.scope ss)
          (Stmt.scopeAfterAll t types a.scope ss) a b
  | [], a, b, h, _ => by
      cases h
      exact Typings.Follows.nil a
  | s :: ss, a, b, h, hrecorded => by
      obtain ⟨middle, hfirst, hsecond⟩ := foldlM_append_eq_ok.mp h
      have hs := Stmt.follows_writes s a middle hfirst
        fun p hp => hrecorded p (Typings.mem_types_of_foldlM hsecond hp)
      have hss := Stmt.follows_writesAll ss middle b hsecond hrecorded
      rw [hs.scope_eq] at hss
      exact (hs.mono fun v hv => List.mem_append_left _ hv).append hfirst
        (hss.mono fun v hv => List.mem_append_right _ hv)

end

end Follow

/-! The table of types of a module. -/

mutual

theorem Stmt.map_id_writes : ∀ s : Stmt NodeId, (s.writes.map (·.id)).Sublist s.ids
  | .declare i _ _ e | .assign i _ e => List.sublist_append_right _ _
  | .branch _ c yes none => by
      have hyes := Stmt.map_id_writesAll yes
      exact (hyes.trans (List.sublist_append_right _ _)).trans (List.sublist_append_left _ _)
  | .branch _ c yes (some no) => by
      rw [Stmt.writes, List.map_append, Stmt.ids]
      have hyes := (Stmt.map_id_writesAll yes).trans (List.sublist_append_right c.ids _)
      exact (hyes.append (Stmt.map_id_writesAll no)).trans (List.sublist_append_left _ _)
  | .loop _ c body => by
      have hbody := Stmt.map_id_writesAll body
      exact (hbody.trans (List.sublist_append_right _ _)).trans (List.sublist_append_left _ _)
  | .leave _ none | .leave _ (some _) | .call _ _ => List.nil_sublist _

theorem Stmt.map_id_writesAll :
    ∀ ss : List (Stmt NodeId), ((Stmt.writesAll ss).map (·.id)).Sublist (Stmt.idsAll ss)
  | [] => List.Sublist.refl _
  | s :: ss => by
      rw [Stmt.writesAll, List.map_append, Stmt.idsAll]
      exact (Stmt.map_id_writes s).append (Stmt.map_id_writesAll ss)

end

mutual

theorem Expr.declare_not_mem_demands {id : NodeId} {x : String} {init : Expr NodeId} :
    ∀ e : Expr NodeId, .declare id x init ∉ e.demands
  | .literal _ _ | .name _ _ => by simp [Expr.demands]
  | .call _ _ args => by
      rw [Expr.demands, List.mem_cons, not_or]
      exact ⟨by simp, Expr.declare_not_mem_demandsAll args⟩

theorem Expr.declare_not_mem_demandsAll {id : NodeId} {x : String} {init : Expr NodeId} :
    ∀ es : List (Expr NodeId), .declare id x init ∉ Expr.demandsAll es
  | [] => by simp [Expr.demandsAll]
  | e :: es => by
      rw [Expr.demandsAll, List.mem_append, not_or]
      exact ⟨Expr.declare_not_mem_demands e, Expr.declare_not_mem_demandsAll es⟩

end

mutual

/-- The walk asks for the type of a declaration by the label it was recorded under. -/
theorem Stmt.write_of_declare_mem {id : NodeId} {x : String} {init : Expr NodeId} :
    ∀ s : Stmt NodeId, .declare id x init ∈ s.demands → ⟨id, true, x, init⟩ ∈ s.writes
  | .declare i .shared y e, h => by
      simp only [Stmt.demands, List.mem_cons, Demand.declare.injEq, Expr.declare_not_mem_demands e,
        or_false] at h
      simp [Stmt.writes, h]
  | .declare i .own y e, h => by
      simp only [Stmt.demands, List.cons_append, List.mem_cons, Demand.declare.injEq,
        List.mem_append, Expr.declare_not_mem_demands e, reduceCtorEq, List.not_mem_nil, or_self,
        or_false] at h
      simp [Stmt.writes, h]
  | .assign _ y e, h => by
      simp only [Stmt.demands, List.mem_cons, reduceCtorEq, Expr.declare_not_mem_demands e,
        or_self] at h
  | .branch i c yes none, h => by
      simp only [Stmt.demands, List.mem_append, Expr.declare_not_mem_demands c, false_or] at h
      exact Stmt.write_of_declare_memAll yes h
  | .branch i c yes (some no), h => by
      simp only [Stmt.demands, List.mem_append, Expr.declare_not_mem_demands c, false_or] at h
      rw [Stmt.writes, List.mem_append]
      exact h.imp (Stmt.write_of_declare_memAll yes) (Stmt.write_of_declare_memAll no)
  | .loop i c body, h => by
      simp only [Stmt.demands, List.mem_append, Expr.declare_not_mem_demands c, false_or] at h
      exact Stmt.write_of_declare_memAll body h
  | .leave _ none, h => absurd h List.not_mem_nil
  | .leave _ (some e), h | .call _ e, h => absurd h (Expr.declare_not_mem_demands e)

theorem Stmt.write_of_declare_memAll {id : NodeId} {x : String} {init : Expr NodeId} :
    ∀ ss : List (Stmt NodeId), .declare id x init ∈ Stmt.demandsAll ss →
      ⟨id, true, x, init⟩ ∈ Stmt.writesAll ss
  | [], h => absurd h List.not_mem_nil
  | s :: ss, h => by
      rw [Stmt.writesAll, List.mem_append]
      exact (List.mem_append.mp h).imp (Stmt.write_of_declare_mem s)
        (Stmt.write_of_declare_memAll ss)

end

section Recorded

variable {t : SymbolTable} {m : Module NodeId} {typed : TypedModule}

theorem Module.flatMap_writes_sublist (ds : List (Decl NodeId)) :
    ((Module.functions ⟨[], ds⟩).flatMap fun f => (Stmt.writesAll f.body).map (·.id)).Sublist
      (ds.flatMap Decl.ids) := by
  induction ds with
  | nil => exact List.Sublist.refl _
  | cons d ds ih =>
      cases d with
      | function f => exact (Stmt.map_id_writesAll f.body).append ih
      | struct s => exact ih
      | constant c => exact ih.trans (List.sublist_append_right _ _)

theorem Module.map_fst_types {functions : List (FunctionDecl NodeId)} {typings : List Typings}
    {constants : Scope}
    (h : List.Forall₂ (fun f b => FunctionDecl.typed t constants f = .ok b) functions typings) :
    (typings.flatMap (·.types)).map (·.1) =
      functions.flatMap fun f => (Stmt.writesAll f.body).map (·.id) := by
  induction h with
  | nil => rfl
  | cons hf _ ih =>
      obtain ⟨more, hmore, hids⟩ := Typings.types_of_foldlM hf
      rw [List.flatMap_cons, List.flatMap_cons, List.map_append, ih, hmore, ← hids]
      rfl

/-- Where no label is recorded twice the table keeps every type. -/
theorem Module.recorded_of_nodup
    (hkeys : (m.functions.flatMap fun f => (Stmt.writesAll f.body).map (·.id)).Nodup)
    (h : m.typed t = .ok typed) {f : FunctionDecl NodeId} (hf : f ∈ m.functions) :
    ∃ b, f.typed t m.constantScope = .ok b ∧ ∀ p ∈ b.types, typed.types.get? p.1 = some p.2 := by
  obtain ⟨typings, htypings, h⟩ := bind_eq_ok.mp h
  cases h
  have hall := mapM_eq_ok.mp htypings
  obtain ⟨b, hb, hfb⟩ := exists_of_forall₂_left hall hf
  refine ⟨b, hfb, ?_⟩
  intro p hp
  rw [← Module.map_fst_types hall] at hkeys
  exact Table.get?_insertAll_of_mem hkeys (List.mem_flatMap.mpr ⟨b, hb, hp⟩)

theorem Module.recorded_of_typed (hids : m.ids.Nodup) (h : m.typed t = .ok typed)
    {f : FunctionDecl NodeId} (hf : f ∈ m.functions) :
    ∃ b, f.typed t m.constantScope = .ok b ∧ ∀ p ∈ b.types, typed.types.get? p.1 = some p.2 := by
  have hkeys : (m.functions.flatMap fun f => (Stmt.writesAll f.body).map (·.id)).Nodup :=
    (Module.flatMap_writes_sublist m.decls).nodup hids
  exact Module.recorded_of_nodup hkeys h hf

end Recorded

end Mis
