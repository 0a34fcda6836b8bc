import Mis.Proofs.Parts

/-!
The table of types has an entry for each declaration and each assignment, at any
depth, and for nothing else. An entry is the type of the value in the scope that
the constants, the parameters and the declarations in front of the statement
make. Blocks do not end a scope: what one branch declares, the other branch and
all statements behind it see.

Since every declaration has an entry, planning the storage of a function never
has to infer a type.
-/
namespace Mis

namespace Table

variable {κ α : Type} [DecidableEq κ]

theorem isSome_get?_insertAll (table : Table κ α) (as : List (κ × α)) (k : κ) :
    ((table.insertAll as).get? k).isSome ↔ k ∈ as.map (·.1) ∨ (table.get? k).isSome := by
  induction as generalizing table with
  | nil => simp [insertAll]
  | cons p as ih =>
      have hstep : table.insertAll (p :: as) = (table.insert p.1 p.2).insertAll as := rfl
      rw [hstep, ih, get?_insert]
      by_cases hk : k = p.1
      · simp [hk]
      · simp [hk]

theorem size_insert_of_none {table : Table κ α} {k : κ} (h : table.get? k = none) (a : α) :
    (table.insert k a).size = table.size + 1 := by
  have hkeep : table.entries.filter (·.1 ≠ k) = table.entries := by
    refine List.filter_eq_self.mpr ?_
    intro p hp
    have hne : k ≠ p.1 := by simpa using List.lookup_eq_none_iff.mp h p hp
    exact decide_eq_true hne.symm
  rw [size, insert, hkeep, List.length_cons, size]

/-- Distinct keys that are all new. -/
theorem size_insertAll {table : Table κ α} {as : List (κ × α)} (hkeys : (as.map (·.1)).Nodup)
    (hnew : ∀ k ∈ as.map (·.1), table.get? k = none) :
    (table.insertAll as).size = table.size + as.length := by
  induction as generalizing table with
  | nil => rfl
  | cons p as ih =>
      have hstep : table.insertAll (p :: as) = (table.insert p.1 p.2).insertAll as := rfl
      obtain ⟨hp, has⟩ := List.nodup_cons.mp hkeys
      have hrest : ∀ k ∈ as.map (·.1), (table.insert p.1 p.2).get? k = none := by
        intro k hk
        have hne : k ≠ p.1 := by
          rintro rfl
          exact hp hk
        rw [get?_insert, if_neg hne]
        exact hnew k (List.mem_cons_of_mem _ hk)
      rw [hstep, ih has hrest, size_insert_of_none (hnew p.1 List.mem_cons_self), List.length_cons]
      omega

end Table

/-! Scopes as lists of entries. -/

namespace Scope

/-- Of several entries for one name the last counts. -/
def ofNames (xs : List TypedName) : Scope :=
  fun x => (xs.reverse.find? (·.name = x)).map (·.type)

theorem ofNames_append_singleton (xs : List TypedName) (x : TypedName) :
    ofNames (xs ++ [x]) = (ofNames xs).insert x.name x.type := by
  funext y
  by_cases hy : y = x.name
  · simp [ofNames, insert, hy]
  · have hne : ¬ x.name = y := fun heq => hy heq.symm
    simp [ofNames, insert, hy, hne]

theorem insertAll_eq_orElse (s : Scope) (xs : List TypedName) :
    s.insertAll xs = (ofNames xs).orElse s := by
  have hempty : ∀ xs, empty.insertAll xs = ofNames xs := by
    intro xs
    induction xs using List.reverseRecOn with
    | nil => rfl
    | append_singleton xs x ih =>
        rw [insertAll_append, ih, ofNames_append_singleton]
        rfl
  rw [← hempty, insertAll_orElse, empty_orElse]

end Scope

/-! Writes as statements of the body. -/

/-- The write that a declaration or an assignment is. -/
def Stmt.write? : Stmt NodeId → Option Write
  | .declare i _ x e => some ⟨i, true, x, e⟩
  | .assign i x e => some ⟨i, false, x, e⟩
  | .branch _ _ _ _ | .loop _ _ _ | .leave _ _ | .call _ _ => none

/-- The variable that a declaration makes, with the type that the table has for it. -/
def Stmt.declaredAs (types : Table NodeId Ty) : Stmt NodeId → Option TypedName
  | .declare i _ x _ => (types.get? i).map (TypedName.mk x)
  | .assign _ _ _ | .branch _ _ _ _ | .loop _ _ _ | .leave _ _ | .call _ _ => none

/-- The declarations and assignments of all functions of a module. -/
def Module.writeStmts (m : Module NodeId) : List (Stmt NodeId) :=
  m.functions.flatMap fun f => (Stmt.partsAll f.body).filter (·.write?.isSome)

/-- What a statement of `f` sees: variables hide parameters, and parameters hide constants. -/
def Module.scopeBehind (m : Module NodeId) (f : FunctionDecl NodeId)
    (vars : List TypedName) : Scope :=
  (Scope.ofNames vars).orElse ((Scope.ofNames f.params).orElse
    (Scope.ofNames (m.constants.map fun c => ⟨c.name, c.type⟩)))

theorem Stmt.id_of_write? {s : Stmt NodeId} {w : Write} (h : s.write? = some w) : w.id = s.id := by
  cases s with
  | declare _ _ _ _ | assign _ _ _ =>
      cases h
      rfl
  | branch _ _ _ _ | loop _ _ _ | leave _ _ | call _ _ => cases h

mutual

theorem Stmt.writes_eq_filterMap : ∀ s : Stmt NodeId, s.writes = s.parts.filterMap Stmt.write?
  | .declare _ _ _ _ | .assign _ _ _ | .leave _ _ | .call _ _ => rfl
  | .branch _ _ yes none => Stmt.writesAll_eq_filterMap yes
  | .branch _ _ yes (some no) => by
      rw [Stmt.writes, Stmt.parts, List.filterMap_cons_none rfl, List.filterMap_append,
        Stmt.writesAll_eq_filterMap yes, Stmt.writesAll_eq_filterMap no]
  | .loop _ _ body => Stmt.writesAll_eq_filterMap body

theorem Stmt.writesAll_eq_filterMap :
    ∀ ss : List (Stmt NodeId), Stmt.writesAll ss = (Stmt.partsAll ss).filterMap Stmt.write?
  | [] => rfl
  | s :: ss => by
      rw [Stmt.writesAll, Stmt.partsAll, List.filterMap_append, Stmt.writes_eq_filterMap s,
        Stmt.writesAll_eq_filterMap ss]

end

theorem Stmt.map_id_filterMap_write? (ss : List (Stmt NodeId)) :
    (ss.filterMap Stmt.write?).map (·.id) = (ss.filter (·.write?.isSome)).map (·.id) := by
  induction ss with
  | nil => rfl
  | cons s ss ih =>
      cases hw : s.write? with
      | none => rw [List.filterMap_cons_none hw, List.filter_cons_of_neg (by simp [hw]), ih]
      | some w =>
          rw [List.filterMap_cons_some hw, List.filter_cons_of_pos (by simp [hw]), List.map_cons,
            List.map_cons, ih, Stmt.id_of_write? hw]

theorem Module.map_id_writeStmts (m : Module NodeId) :
    m.writeStmts.map (·.id) =
      m.functions.flatMap fun f => (Stmt.writesAll f.body).map (·.id) := by
  rw [Module.writeStmts, List.map_flatMap]
  congr 1
  funext f
  rw [Stmt.writesAll_eq_filterMap, Stmt.map_id_filterMap_write?]

/-! Recorded types. -/

section Recorded

variable {t : SymbolTable} {m : Module NodeId} {typed : TypedModule}

/-- The entries of the table, in the order in which they were made. -/
theorem Module.exists_entries (h : m.typed t = .ok typed) :
    ∃ entries, typed.types = Table.empty.insertAll entries ∧
      entries.map (·.1) = m.writeStmts.map (·.id) := by
  obtain ⟨typings, htypings, h⟩ := bind_eq_ok.mp h
  cases h
  refine ⟨_, rfl, ?_⟩
  rw [Module.map_fst_types (mapM_eq_ok.mp htypings), Module.map_id_writeStmts]

theorem Module.isSome_types_iff (h : m.typed t = .ok typed) (id : NodeId) :
    (typed.types.get? id).isSome ↔ ∃ s ∈ m.writeStmts, s.id = id := by
  obtain ⟨entries, htypes, hids⟩ := Module.exists_entries h
  rw [htypes, Table.isSome_get?_insertAll, hids, List.mem_map]
  simp

theorem Module.size_types (hids : (m.writeStmts.map (·.id)).Nodup) (h : m.typed t = .ok typed) :
    typed.types.size = m.writeStmts.length := by
  obtain ⟨entries, htypes, hkeys⟩ := Module.exists_entries h
  have hlength := congrArg List.length hkeys
  rw [List.length_map, List.length_map] at hlength
  rw [htypes, Table.size_insertAll (hkeys ▸ hids) (fun k _ => Table.get?_empty k), hlength]
  exact Nat.zero_add _

theorem Stmt.declaredAs_of_write?_eq_none {s : Stmt NodeId} (h : s.write? = none)
    (types : Table NodeId Ty) : s.declaredAs types = none := by
  cases s with
  | declare _ _ _ _ => cases h
  | assign _ _ _ | branch _ _ _ _ | loop _ _ _ | leave _ _ | call _ _ => rfl

/-- One write extends the scope by what it declares. -/
theorem Typings.scope_of_record {types : Table NodeId Ty} {s : Stmt NodeId} {w : Write}
    {a b : Typings} (hw : s.write? = some w) (h : Typings.record t a w = .ok b)
    (hrecorded : ∀ p ∈ b.types, types.get? p.1 = some p.2) :
    b.scope = a.scope.insertAll (s.declaredAs types).toList := by
  obtain ⟨T, _, hscope, htypes⟩ := Typings.record_eq_ok h
  have hT : types.get? w.id = some T := by
    refine hrecorded (w.id, T) ?_
    rw [htypes]
    exact List.mem_append_right _ (List.mem_singleton_self _)
  rw [hscope]
  cases s with
  | declare i storage x e =>
      cases hw
      rw [Stmt.declaredAs, hT]
      rfl
  | assign i x e =>
      cases hw
      rfl
  | branch _ _ _ _ | loop _ _ _ | leave _ _ | call _ _ => cases hw

/-- The scope behind a run over writes whose types went to the table. -/
theorem Typings.scope_of_foldlM {types : Table NodeId Ty} {ss : List (Stmt NodeId)} {a b : Typings}
    (h : (ss.filterMap Stmt.write?).foldlM (Typings.record t) a = .ok b)
    (hrecorded : ∀ p ∈ b.types, types.get? p.1 = some p.2) :
    b.scope = a.scope.insertAll (ss.filterMap (Stmt.declaredAs types)) := by
  induction ss generalizing a with
  | nil =>
      cases h
      rfl
  | cons s ss ih =>
      cases hw : s.write? with
      | none =>
          rw [List.filterMap_cons_none hw] at h
          rw [List.filterMap_cons_none (Stmt.declaredAs_of_write?_eq_none hw types), ih h]
      | some w =>
          rw [List.filterMap_cons_some hw, List.foldlM_cons] at h
          obtain ⟨c, hc, h⟩ := bind_eq_ok.mp h
          have hkept : ∀ p ∈ c.types, types.get? p.1 = some p.2 := fun p hp =>
            hrecorded p (Typings.mem_types_of_foldlM h hp)
          have hcons : (s :: ss).filterMap (Stmt.declaredAs types) =
              (s.declaredAs types).toList ++ ss.filterMap (Stmt.declaredAs types) := by
            rw [List.filterMap_cons]
            cases s.declaredAs types with
            | none | some _ => rfl
          rw [ih h, Typings.scope_of_record hw hc hkept, hcons, Scope.insertAll_append]

theorem Module.scopeBehind_eq (m : Module NodeId) (f : FunctionDecl NodeId)
    (vars : List TypedName) :
    m.scopeBehind f vars = (m.constantScope.insertAll f.params).insertAll vars := by
  have hconstants :
      m.constantScope = Scope.ofNames (m.constants.map fun c => ⟨c.name, c.type⟩) := by
    rw [Module.constantScope, Scope.insertAll_eq_orElse]
    funext x
    simp [Scope.orElse, Scope.empty]
  rw [Scope.insertAll_eq_orElse, Scope.insertAll_eq_orElse, hconstants, Module.scopeBehind]

/-- A write has the type of its value in the scope behind what stands in front of it. -/
theorem Module.valueType_of_write (hids : (m.writeStmts.map (·.id)).Nodup)
    (h : m.typed t = .ok typed) {f : FunctionDecl NodeId} (hf : f ∈ m.functions)
    {before after : List (Stmt NodeId)} {s : Stmt NodeId} {w : Write}
    (hbody : Stmt.partsAll f.body = before ++ s :: after) (hw : s.write? = some w) :
    ∃ T, typed.types.get? s.id = some T ∧
      w.value.valueType t
        (m.scopeBehind f (before.filterMap (Stmt.declaredAs typed.types))) = .ok T := by
  rw [Module.map_id_writeStmts] at hids
  obtain ⟨b, hb, hrecorded⟩ := Module.recorded_of_nodup hids h hf
  rw [FunctionDecl.typed, Stmt.writesAll_eq_filterMap, hbody, List.filterMap_append,
    List.filterMap_cons_some hw] at hb
  obtain ⟨c, hbefore, hb⟩ := foldlM_append_eq_ok.mp hb
  have hkept : ∀ p ∈ c.types, typed.types.get? p.1 = some p.2 := fun p hp =>
    hrecorded p (Typings.mem_types_of_foldlM hb hp)
  have hscope := Typings.scope_of_foldlM hbefore hkept
  rw [List.foldlM_cons] at hb
  obtain ⟨d, hd, hafter⟩ := bind_eq_ok.mp hb
  obtain ⟨T, hT, _, htypes⟩ := Typings.record_eq_ok hd
  refine ⟨T, ?_, ?_⟩
  · rw [← Stmt.id_of_write? hw]
    refine hrecorded (w.id, T) (Typings.mem_types_of_foldlM hafter ?_)
    rw [htypes]
    exact List.mem_append_right _ (List.mem_singleton_self _)
  · rw [Module.scopeBehind_eq]
    rw [hscope] at hT
    exact hT

end Recorded

/-! Planning storage with another way to find a type that is not recorded. -/

/-- Meets a demand as `Frame.meet` does, but takes the type of a declaration without an entry from
`infer`. -/
def Frame.meetWith (infer : Frame → Expr NodeId → Except GenerateError Ty) (t : SymbolTable)
    (types : Table NodeId Ty) (frame : Frame) (d : Demand) : Except GenerateError Frame :=
  match d with
  | .declare id x init => do
    let type ←
      match types.get? id with
      | some type => .ok type
      | none => infer frame init
    frame.declare x type
  | d => frame.meet t types d

def FunctionDecl.frameWith (infer : Frame → Expr NodeId → Except GenerateError Ty)
    (t : SymbolTable) (types : Table NodeId Ty) (globals : Scope) (f : FunctionDecl NodeId) :
    Except GenerateError Frame := do
  let frame ← Frame.enter globals f
  (Stmt.demandsAll f.body).foldlM (Frame.meetWith infer t types) frame

/-- The way that `Frame.meet` itself takes. -/
theorem Frame.meet_eq_meetWith (t : SymbolTable) (types : Table NodeId Ty) (frame : Frame)
    (d : Demand) :
    frame.meet t types d =
      frame.meetWith (fun g e => (e.valueType t g.scope).mapError .semantic) t types d := by
  cases d with
  | declare _ _ _ | ownSlot _ _ | visible _ | constant _ _ | call _ _ _ => rfl

theorem Frame.meetWith_congr {infer infer' : Frame → Expr NodeId → Except GenerateError Ty}
    {t : SymbolTable} {types : Table NodeId Ty} {d : Demand}
    (hd : ∀ id x init, d = .declare id x init → (types.get? id).isSome) (frame : Frame) :
    frame.meetWith infer t types d = frame.meetWith infer' t types d := by
  cases d with
  | declare id x init =>
      obtain ⟨T, hT⟩ := Option.isSome_iff_exists.mp (hd id x init rfl)
      simp only [Frame.meetWith, hT]
  | ownSlot _ _ | visible _ | constant _ _ | call _ _ _ => rfl

theorem foldlM_congr {ε S A : Type} {step step' : S → A → Except ε S} {as : List A}
    (h : ∀ a ∈ as, ∀ s, step s a = step' s a) (s : S) : as.foldlM step s = as.foldlM step' s := by
  induction as generalizing s with
  | nil => rfl
  | cons a as ih =>
      rw [List.foldlM_cons, List.foldlM_cons, h a List.mem_cons_self]
      congr 1
      funext s'
      exact ih (fun b hb => h b (List.mem_cons_of_mem _ hb)) s'

section Storage

variable {t : SymbolTable} {m : Module NodeId} {typed : TypedModule}

theorem Module.isSome_types_of_declare (h : m.typed t = .ok typed) {f : FunctionDecl NodeId}
    (hf : f ∈ m.functions) {id : NodeId} {x : String} {init : Expr NodeId}
    (hd : .declare id x init ∈ Stmt.demandsAll f.body) : (typed.types.get? id).isSome := by
  have hwrite := Stmt.write_of_declare_memAll f.body hd
  rw [Stmt.writesAll_eq_filterMap] at hwrite
  obtain ⟨s, hs, hw⟩ := List.mem_filterMap.mp hwrite
  refine (Module.isSome_types_iff h id).mpr ⟨s, ?_, (Stmt.id_of_write? hw).symm⟩
  exact List.mem_flatMap.mpr ⟨f, hf, List.mem_filter.mpr ⟨hs, by rw [hw]; rfl⟩⟩

/-- Planning storage comes out the same however types that are not recorded would be inferred. -/
theorem Module.frameWith_eq (h : m.typed t = .ok typed) {f : FunctionDecl NodeId}
    (hf : f ∈ m.functions) (infer : Frame → Expr NodeId → Except GenerateError Ty)
    (t' : SymbolTable) (globals : Scope) :
    f.frameWith infer t' typed.types globals = f.frame t' typed.types globals := by
  have hstep : ∀ d ∈ Stmt.demandsAll f.body, ∀ frame : Frame,
      frame.meetWith infer t' typed.types d = frame.meet t' typed.types d := by
    intro d hd frame
    rw [Frame.meet_eq_meetWith]
    refine Frame.meetWith_congr (fun id x init heq => ?_) frame
    subst heq
    exact Module.isSome_types_of_declare h hf hd
  rw [FunctionDecl.frameWith, FunctionDecl.frame]
  congr 1
  funext frame
  exact foldlM_congr hstep frame

end Storage

/-- The table of a typed module has an entry for exactly the declarations and assignments of its
functions. If these have distinct labels there are as many entries, and each is the type of the
value in the scope of the constants, the parameters and the declarations in front. The inference
that stands in for a missing entry is never used. -/
theorem Module.types_cover_writes {t : SymbolTable} {m : Module NodeId} {typed : TypedModule}
    (h : m.typed t = .ok typed) :
    (∀ id, (typed.types.get? id).isSome ↔
      ∃ f ∈ m.functions, ∃ s ∈ Stmt.partsAll f.body, s.write?.isSome ∧ s.id = id) ∧
    ((m.writeStmts.map (·.id)).Nodup →
      typed.types.size = m.writeStmts.length ∧
      ∀ f ∈ m.functions, ∀ before s after w, Stmt.partsAll f.body = before ++ s :: after →
        s.write? = some w →
        ∃ T, typed.types.get? s.id = some T ∧
          w.value.valueType t
            (m.scopeBehind f (before.filterMap (Stmt.declaredAs typed.types))) = .ok T) ∧
    ∀ f ∈ m.functions, ∀ infer t' globals,
      f.frameWith infer t' typed.types globals = f.frame t' typed.types globals := by
  refine ⟨?_, ?_, fun f hf infer t' globals => Module.frameWith_eq h hf infer t' globals⟩
  · intro id
    rw [Module.isSome_types_iff h id]
    simp only [Module.writeStmts, List.mem_flatMap, List.mem_filter]
    constructor
    · rintro ⟨s, ⟨f, hf, hs, hw⟩, hid⟩
      exact ⟨f, hf, s, hs, hw, hid⟩
    · rintro ⟨f, hf, s, hs, hw, hid⟩
      exact ⟨s, ⟨f, hf, hs, hw⟩, hid⟩
  · intro hids
    refine ⟨Module.size_types hids h, ?_⟩
    intro f hf before s after w hbody hw
    exact Module.valueType_of_write hids h hf hbody hw

/-- The body `if n { n := "s" } else { m := n }`, where a constant and a parameter are named `n`. -/
def rebinding : FunctionDecl NodeId where
  name := "start"
  params := [⟨"n", ⟨"Flag", false⟩⟩]
  result := none
  body :=
    [.branch 0 (.name 1 "n") [.declare 2 .shared "n" (.literal 3 (.text "s"))]
      (some [.declare 4 .shared "m" (.name 5 "n")])]

def rebindingModule : Module NodeId :=
  ⟨[], [.constant ⟨"n", .int, .literal 6 (.int 1)⟩, .function rebinding]⟩

/-- The second branch sees what the first declares, and not the parameter or the constant. The
frame is refused for the type that is recorded. -/
theorem rebinding_types_cover_writes :
    ∃ typed, rebindingModule.typed rebindingModule.symbolTable = .ok typed ∧
      (typed.types.get? 2).isSome ∧ ¬ (typed.types.get? 0).isSome ∧ typed.types.size = 2 ∧
      typed.types.get? 4 = some .string ∧
      (Expr.name 5 "n").valueType rebindingModule.symbolTable
        (rebindingModule.scopeBehind rebinding [⟨"n", .string⟩]) = .ok .string ∧
      rebinding.frameWith (fun _ _ => .error .noEntryPoint) rebindingModule.symbolTable typed.types
          rebindingModule.constantScope =
        .error (.redeclaredAs "n" ⟨"Flag", false⟩ .string) := by
  have htyped : rebindingModule.typed rebindingModule.symbolTable =
      .ok ⟨rebindingModule, ⟨[(4, .string), (2, .string)]⟩⟩ := by rfl
  have hf : rebinding ∈ rebindingModule.functions := List.mem_singleton_self _
  obtain ⟨hcovers, hdistinct, hfallback⟩ := Module.types_cover_writes htyped
  obtain ⟨hsize, hvalues⟩ := hdistinct (by decide)
  obtain ⟨T, hT, hvalue⟩ := hvalues rebinding hf _ (.declare 4 .shared "m" (.name 5 "n")) [] _
    (by rfl : Stmt.partsAll rebinding.body =
      [.branch 0 (.name 1 "n") [.declare 2 .shared "n" (.literal 3 (.text "s"))]
        (some [.declare 4 .shared "m" (.name 5 "n")]),
       .declare 2 .shared "n" (.literal 3 (.text "s"))] ++ [.declare 4 .shared "m" (.name 5 "n")])
    rfl
  cases hT
  refine ⟨_, htyped, (hcovers 2).mpr ?_, by decide, hsize, rfl, hvalue,
    (hfallback rebinding hf _ _ _).trans (by rfl)⟩
  exact ⟨rebinding, hf, .declare 2 .shared "n" (.literal 3 (.text "s")),
    List.mem_cons_of_mem _ List.mem_cons_self, rfl, rfl⟩

end Mis
