import Mis.Frame
import Mis.Proofs.Scope

/-!
The walk over a body that its storage is planned along, and the scope in which it
comes to each node. A declaration is met before its value, so the value already
sees the variable; what a branch or a loop declares stays in scope behind it.

The demands of a body are this walk without the scopes.
-/
namespace Mis

/-! Labels and names of a tree. -/

section Labels

variable {ι : Type}

mutual

def Expr.ids : Expr ι → List ι
  | .literal i _ | .name i _ => [i]
  | .call i callee args => i :: (Expr.ids callee ++ Expr.idsAll args)

def Expr.idsAll : List (Expr ι) → List ι
  | [] => []
  | e :: es => Expr.ids e ++ Expr.idsAll es

end

mutual

def Stmt.ids : Stmt ι → List ι
  | .declare i _ _ e | .assign i _ e | .call i e | .leave i (some e) => e.ids ++ [i]
  | .branch i c yes none => c.ids ++ Stmt.idsAll yes ++ [i]
  | .branch i c yes (some no) => c.ids ++ Stmt.idsAll yes ++ Stmt.idsAll no ++ [i]
  | .loop i c body => c.ids ++ Stmt.idsAll body ++ [i]
  | .leave i none => [i]

def Stmt.idsAll : List (Stmt ι) → List ι
  | [] => []
  | s :: ss => Stmt.ids s ++ Stmt.idsAll ss

end

def Decl.ids : Decl ι → List ι
  | .function f => Stmt.idsAll f.body
  | .struct _ => []
  | .constant c => c.init.ids

/-- The labels of all nodes of a module. -/
def Module.ids (m : Module ι) : List ι :=
  m.decls.flatMap Decl.ids

mutual

/-- The names that stand for values. A callee is none of them. -/
def Expr.names : Expr ι → List String
  | .literal _ _ => []
  | .name _ x => [x]
  | .call _ _ args => Expr.namesAll args

def Expr.namesAll : List (Expr ι) → List String
  | [] => []
  | e :: es => Expr.names e ++ Expr.namesAll es

end

mutual

/-- The names that a statement reads or assigns. -/
def Stmt.names : Stmt ι → List String
  | .declare _ _ _ e | .call _ e | .leave _ (some e) => e.names
  | .assign _ x e => x :: e.names
  | .branch _ c yes none => c.names ++ Stmt.namesAll yes
  | .branch _ c yes (some no) => c.names ++ Stmt.namesAll yes ++ Stmt.namesAll no
  | .loop _ c body => c.names ++ Stmt.namesAll body
  | .leave _ none => []

def Stmt.namesAll : List (Stmt ι) → List String
  | [] => []
  | s :: ss => Stmt.names s ++ Stmt.namesAll ss

end

mutual

/-- The names that a statement declares, at any depth, in source order. -/
def Stmt.declared : Stmt ι → List String
  | .declare _ _ x _ => [x]
  | .branch _ _ yes none => Stmt.declaredAll yes
  | .branch _ _ yes (some no) => Stmt.declaredAll yes ++ Stmt.declaredAll no
  | .loop _ _ body => Stmt.declaredAll body
  | .assign _ _ _ | .leave _ _ | .call _ _ => []

def Stmt.declaredAll : List (Stmt ι) → List String
  | [] => []
  | s :: ss => Stmt.declared s ++ Stmt.declaredAll ss

end

end Labels

/-! The walk. -/

/-- What the walk stops at: a variable being declared, or a node that may need a slot. -/
inductive Site where
  | declare (name : String) (type : Option Ty)
  | literal (id : NodeId) (value : Literal)
  | call (id : NodeId) (callee : Expr NodeId) (args : List (Expr NodeId))
  | own (id : NodeId) (type : Option Ty)

/-- The node whose slot the site asks for. -/
def Site.id? : Site → Option NodeId
  | .declare _ _ => none
  | .literal i _ | .call i _ _ | .own i _ => some i

structure Visit where
  scope : Scope
  site : Site

mutual

/-- A call comes before its arguments. -/
def Expr.visits (σ : Scope) : Expr NodeId → List Visit
  | .literal i v => [⟨σ, .literal i v⟩]
  | .name _ _ => []
  | .call i callee args => ⟨σ, .call i callee args⟩ :: Expr.visitsAll σ args

def Expr.visitsAll (σ : Scope) : List (Expr NodeId) → List Visit
  | [] => []
  | e :: es => Expr.visits σ e ++ Expr.visitsAll σ es

end

section Walk

variable (t : SymbolTable) (types : Table NodeId Ty)

/-- The type of a declared variable: the recorded one, or else that of its value. -/
def declaredType (σ : Scope) (id : NodeId) (init : Expr NodeId) : Option Ty :=
  (types.get? id).or (init.valueType t σ).toOption

mutual

/-- The scope behind a statement. -/
def Stmt.scopeAfter (σ : Scope) : Stmt NodeId → Scope
  | .declare i _ x e => σ.set x (declaredType t types σ i e)
  | .branch _ _ yes none => Stmt.scopeAfterAll σ yes
  | .branch _ _ yes (some no) => Stmt.scopeAfterAll (Stmt.scopeAfterAll σ yes) no
  | .loop _ _ body => Stmt.scopeAfterAll σ body
  | .assign _ _ _ | .leave _ _ | .call _ _ => σ

def Stmt.scopeAfterAll (σ : Scope) : List (Stmt NodeId) → Scope
  | [] => σ
  | s :: ss => Stmt.scopeAfterAll (Stmt.scopeAfter σ s) ss

end

mutual

def Stmt.visits (σ : Scope) : Stmt NodeId → List Visit
  | .declare i .shared x e =>
    ⟨σ, .declare x (declaredType t types σ i e)⟩ ::
      e.visits (σ.set x (declaredType t types σ i e))
  | .declare i .own x e =>
    ⟨σ, .declare x (declaredType t types σ i e)⟩ ::
      e.visits (σ.set x (declaredType t types σ i e)) ++
        [⟨σ.set x (declaredType t types σ i e), .own i (declaredType t types σ i e)⟩]
  | .assign _ _ e | .call _ e | .leave _ (some e) => e.visits σ
  | .branch _ c yes none => c.visits σ ++ Stmt.visitsAll σ yes
  | .branch _ c yes (some no) =>
    c.visits σ ++ Stmt.visitsAll σ yes ++
      Stmt.visitsAll (Stmt.scopeAfterAll t types σ yes) no
  | .loop _ c body => c.visits σ ++ Stmt.visitsAll σ body
  | .leave _ none => []

def Stmt.visitsAll (σ : Scope) : List (Stmt NodeId) → List Visit
  | [] => []
  | s :: ss => Stmt.visits σ s ++ Stmt.visitsAll (Stmt.scopeAfter t types σ s) ss

end

/-- Parameters hide the constants of the module. -/
def FunctionDecl.startScope (globals : Scope) (f : FunctionDecl NodeId) : Scope :=
  globals.insertAll f.params

/-- The walk over the body of a function. -/
def FunctionDecl.visits (globals : Scope) (f : FunctionDecl NodeId) : List Visit :=
  Stmt.visitsAll t types (f.startScope globals) f.body

/-! The walk along a list of demands. -/

def Demand.site? (σ : Scope) : Demand → Option Site
  | .declare i x e => some (.declare x (declaredType t types σ i e))
  | .ownSlot i x => some (.own i (σ x))
  | .visible _ => none
  | .constant i v => some (.literal i v)
  | .call i callee args => some (.call i callee args)

def Demand.scopeAfter (σ : Scope) : Demand → Scope
  | .declare i x e => σ.set x (declaredType t types σ i e)
  | _ => σ

def Demand.visits (σ : Scope) (d : Demand) : List Visit :=
  ((d.site? t types σ).map (Visit.mk σ)).toList

def scopeAlong (σ : Scope) : List Demand → Scope
  | [] => σ
  | d :: ds => scopeAlong (d.scopeAfter t types σ) ds

def visitsAlong (σ : Scope) : List Demand → List Visit
  | [] => []
  | d :: ds => d.visits t types σ ++ visitsAlong (d.scopeAfter t types σ) ds

end Walk

section Along

variable (t : SymbolTable) (types : Table NodeId Ty)

theorem scopeAlong_append (σ : Scope) (ds es : List Demand) :
    scopeAlong t types σ (ds ++ es) = scopeAlong t types (scopeAlong t types σ ds) es := by
  induction ds generalizing σ with
  | nil => rfl
  | cons d ds ih => exact ih (d.scopeAfter t types σ)

theorem visitsAlong_append (σ : Scope) (ds es : List Demand) :
    visitsAlong t types σ (ds ++ es) =
      visitsAlong t types σ ds ++ visitsAlong t types (scopeAlong t types σ ds) es := by
  induction ds generalizing σ with
  | nil => rfl
  | cons d ds ih =>
      simp only [List.cons_append, visitsAlong, scopeAlong, ih, List.append_assoc]

mutual

theorem Expr.scopeAlong_demands (σ : Scope) :
    ∀ e : Expr NodeId, scopeAlong t types σ e.demands = σ
  | .literal _ _ | .name _ _ => rfl
  | .call _ _ args => Expr.scopeAlong_demandsAll σ args

theorem Expr.scopeAlong_demandsAll (σ : Scope) :
    ∀ es : List (Expr NodeId), scopeAlong t types σ (Expr.demandsAll es) = σ
  | [] => rfl
  | e :: es => by
      rw [Expr.demandsAll, scopeAlong_append, Expr.scopeAlong_demands σ e,
        Expr.scopeAlong_demandsAll σ es]

end

mutual

theorem Expr.visitsAlong_demands (σ : Scope) :
    ∀ e : Expr NodeId, visitsAlong t types σ e.demands = e.visits σ
  | .literal _ _ | .name _ _ => rfl
  | .call i callee args => by
      have hargs := Expr.visitsAlong_demandsAll σ args
      simp only [Expr.demands, Expr.visits, visitsAlong, Demand.visits, Demand.site?,
        Demand.scopeAfter, hargs, Option.map_some, Option.toList_some, List.singleton_append]

theorem Expr.visitsAlong_demandsAll (σ : Scope) :
    ∀ es : List (Expr NodeId), visitsAlong t types σ (Expr.demandsAll es) = Expr.visitsAll σ es
  | [] => rfl
  | e :: es => by
      rw [Expr.demandsAll, visitsAlong_append, Expr.scopeAlong_demands t types σ e,
        Expr.visitsAlong_demands σ e, Expr.visitsAlong_demandsAll σ es, Expr.visitsAll]

end

mutual

theorem Stmt.scopeAlong_demands (σ : Scope) :
    ∀ s : Stmt NodeId, scopeAlong t types σ s.demands = s.scopeAfter t types σ
  | .declare i .shared x e => by
      simp only [Stmt.demands, scopeAlong, Demand.scopeAfter, Stmt.scopeAfter,
        Expr.scopeAlong_demands]
  | .declare i .own x e => by
      simp only [Stmt.demands, List.cons_append, scopeAlong, scopeAlong_append,
        Demand.scopeAfter, Stmt.scopeAfter, Expr.scopeAlong_demands]
  | .assign _ x e => by
      simp only [Stmt.demands, scopeAlong, Demand.scopeAfter, Stmt.scopeAfter,
        Expr.scopeAlong_demands]
  | .branch _ c yes none => by
      simp only [Stmt.demands, scopeAlong_append, Stmt.scopeAfter, Expr.scopeAlong_demands,
        Stmt.scopeAlong_demandsAll _ yes]
  | .branch _ c yes (some no) => by
      simp only [Stmt.demands, scopeAlong_append, Stmt.scopeAfter, Expr.scopeAlong_demands,
        Stmt.scopeAlong_demandsAll _ yes, Stmt.scopeAlong_demandsAll _ no]
  | .loop _ c body => by
      simp only [Stmt.demands, scopeAlong_append, Stmt.scopeAfter, Expr.scopeAlong_demands,
        Stmt.scopeAlong_demandsAll _ body]
  | .leave _ none => rfl
  | .leave _ (some e) | .call _ e => by
      simp only [Stmt.demands, Stmt.scopeAfter, Expr.scopeAlong_demands]

theorem Stmt.scopeAlong_demandsAll (σ : Scope) :
    ∀ ss : List (Stmt NodeId),
      scopeAlong t types σ (Stmt.demandsAll ss) = Stmt.scopeAfterAll t types σ ss
  | [] => rfl
  | s :: ss => by
      rw [Stmt.demandsAll, scopeAlong_append, Stmt.scopeAlong_demands σ s,
        Stmt.scopeAlong_demandsAll _ ss, Stmt.scopeAfterAll]

end

mutual

theorem Stmt.visitsAlong_demands (σ : Scope) :
    ∀ s : Stmt NodeId, visitsAlong t types σ s.demands = s.visits t types σ
  | .declare i .shared x e => by
      simp only [Stmt.demands, visitsAlong, Demand.visits, Demand.site?, Demand.scopeAfter,
        Stmt.visits, Expr.visitsAlong_demands, Option.map_some, Option.toList_some,
        List.singleton_append]
  | .declare i .own x e => by
      -- the slot has the type that the declaration has just given its variable
      simp only [Stmt.demands, List.cons_append, visitsAlong, visitsAlong_append, Demand.visits,
        Demand.site?, Demand.scopeAfter, Stmt.visits, Expr.visitsAlong_demands,
        Expr.scopeAlong_demands, Scope.set_self, Option.map_some, Option.toList_some,
        List.nil_append, List.append_nil]
  | .assign _ x e => by
      simp only [Stmt.demands, visitsAlong, Demand.visits, Demand.site?, Demand.scopeAfter,
        Stmt.visits, Expr.visitsAlong_demands, Option.map_none, Option.toList_none,
        List.nil_append]
  | .branch _ c yes none => by
      simp only [Stmt.demands, visitsAlong_append, Stmt.visits, Expr.visitsAlong_demands,
        Expr.scopeAlong_demands, Stmt.visitsAlong_demandsAll _ yes]
  | .branch _ c yes (some no) => by
      simp only [Stmt.demands, visitsAlong_append, scopeAlong_append, Stmt.visits,
        Expr.visitsAlong_demands, Expr.scopeAlong_demands, Stmt.visitsAlong_demandsAll _ yes,
        Stmt.visitsAlong_demandsAll _ no, Stmt.scopeAlong_demandsAll]
  | .loop _ c body => by
      simp only [Stmt.demands, visitsAlong_append, Stmt.visits, Expr.visitsAlong_demands,
        Expr.scopeAlong_demands, Stmt.visitsAlong_demandsAll _ body]
  | .leave _ none => rfl
  | .leave _ (some e) | .call _ e => by
      simp only [Stmt.demands, Stmt.visits, Expr.visitsAlong_demands]

theorem Stmt.visitsAlong_demandsAll (σ : Scope) :
    ∀ ss : List (Stmt NodeId),
      visitsAlong t types σ (Stmt.demandsAll ss) = Stmt.visitsAll t types σ ss
  | [] => rfl
  | s :: ss => by
      rw [Stmt.demandsAll, visitsAlong_append, Stmt.scopeAlong_demands t types σ s,
        Stmt.visitsAlong_demands σ s, Stmt.visitsAlong_demandsAll _ ss, Stmt.visitsAll]

end

end Along

/-! What the walk stops at, seen from the tree. -/

def Site.declared? : Site → Option (String × Option Ty)
  | .declare x type => some (x, type)
  | _ => none

/-- The declarations that the walk comes to. -/
def declaredVariables (vs : List Visit) : List (String × Option Ty) :=
  vs.filterMap (·.site.declared?)

theorem declaredVariables_append (vs ws : List Visit) :
    declaredVariables (vs ++ ws) = declaredVariables vs ++ declaredVariables ws :=
  List.filterMap_append

theorem declaredVariables_declare (σ : Scope) (x : String) (type : Option Ty) (vs : List Visit) :
    declaredVariables (⟨σ, .declare x type⟩ :: vs) = (x, type) :: declaredVariables vs := rfl

mutual

theorem Expr.declaredVariables_visits (σ : Scope) :
    ∀ e : Expr NodeId, declaredVariables (e.visits σ) = []
  | .literal _ _ | .name _ _ => rfl
  | .call _ _ args => Expr.declaredVariables_visitsAll σ args

theorem Expr.declaredVariables_visitsAll (σ : Scope) :
    ∀ es : List (Expr NodeId), declaredVariables (Expr.visitsAll σ es) = []
  | [] => rfl
  | e :: es => by
      rw [Expr.visitsAll, declaredVariables_append, Expr.declaredVariables_visits σ e,
        Expr.declaredVariables_visitsAll σ es, List.append_nil]

end

section Variables

variable (t : SymbolTable) (types : Table NodeId Ty)

mutual

theorem Stmt.map_fst_declaredVariables_visits (σ : Scope) :
    ∀ s : Stmt NodeId, (declaredVariables (s.visits t types σ)).map (·.1) = s.declared
  | .declare i .shared x e => by
      rw [Stmt.visits, declaredVariables_declare, Expr.declaredVariables_visits, Stmt.declared]
      rfl
  | .declare i .own x e => by
      rw [Stmt.visits, declaredVariables_append, declaredVariables_declare,
        Expr.declaredVariables_visits, Stmt.declared]
      rfl
  | .assign _ _ e | .call _ e | .leave _ (some e) => by
      simp only [Stmt.visits, Stmt.declared, Expr.declaredVariables_visits, List.map_nil]
  | .branch _ c yes none => by
      simp only [Stmt.visits, Stmt.declared, declaredVariables_append,
        Expr.declaredVariables_visits, List.nil_append,
        Stmt.map_fst_declaredVariables_visitsAll σ yes]
  | .branch _ c yes (some no) => by
      simp only [Stmt.visits, Stmt.declared, declaredVariables_append,
        Expr.declaredVariables_visits, List.nil_append, List.map_append,
        Stmt.map_fst_declaredVariables_visitsAll _ yes,
        Stmt.map_fst_declaredVariables_visitsAll _ no]
  | .loop _ c body => by
      simp only [Stmt.visits, Stmt.declared, declaredVariables_append,
        Expr.declaredVariables_visits, List.nil_append,
        Stmt.map_fst_declaredVariables_visitsAll σ body]
  | .leave _ none => rfl

theorem Stmt.map_fst_declaredVariables_visitsAll (σ : Scope) :
    ∀ ss : List (Stmt NodeId),
      (declaredVariables (Stmt.visitsAll t types σ ss)).map (·.1) = Stmt.declaredAll ss
  | [] => rfl
  | s :: ss => by
      rw [Stmt.visitsAll, declaredVariables_append, List.map_append, Stmt.declaredAll,
        Stmt.map_fst_declaredVariables_visits σ s, Stmt.map_fst_declaredVariables_visitsAll _ ss]

end

theorem Stmt.exists_visit_of_declared {σ : Scope} {ss : List (Stmt NodeId)} {x : String}
    (h : x ∈ Stmt.declaredAll ss) :
    ∃ τ type, ⟨τ, .declare x type⟩ ∈ Stmt.visitsAll t types σ ss := by
  rw [← Stmt.map_fst_declaredVariables_visitsAll t types σ] at h
  obtain ⟨p, hp, rfl⟩ := List.mem_map.mp h
  obtain ⟨v, hv, hsite⟩ := List.mem_filterMap.mp hp
  obtain ⟨τ, site⟩ := v
  cases site with
  | declare y type =>
      cases hsite
      exact ⟨τ, type, hv⟩
  | literal _ _ | call _ _ _ | own _ _ => cases hsite

end Variables

/-- The nodes that may own a slot, in the order of the walk. -/
def slotIds (vs : List Visit) : List NodeId :=
  vs.filterMap (·.site.id?)

theorem slotIds_append (vs ws : List Visit) : slotIds (vs ++ ws) = slotIds vs ++ slotIds ws :=
  List.filterMap_append

mutual

theorem Expr.slotIds_visits (σ : Scope) : ∀ e : Expr NodeId, (slotIds (e.visits σ)).Sublist e.ids
  | .literal _ _ => List.Sublist.refl _
  | .name _ _ => List.nil_sublist _
  | .call i _ args =>
      ((Expr.slotIds_visitsAll σ args).trans (List.sublist_append_right _ _)).cons_cons i

theorem Expr.slotIds_visitsAll (σ : Scope) :
    ∀ es : List (Expr NodeId), (slotIds (Expr.visitsAll σ es)).Sublist (Expr.idsAll es)
  | [] => List.Sublist.refl _
  | e :: es => by
      rw [Expr.visitsAll, slotIds_append, Expr.idsAll]
      exact (Expr.slotIds_visits σ e).append (Expr.slotIds_visitsAll σ es)

end

section FromTree

variable (t : SymbolTable) (types : Table NodeId Ty)

mutual

theorem Stmt.slotIds_visits (σ : Scope) :
    ∀ s : Stmt NodeId, (slotIds (s.visits t types σ)).Sublist s.ids
  | .declare i .shared x e => by
      have he := Expr.slotIds_visits (σ.set x (declaredType t types σ i e)) e
      exact he.trans (List.sublist_append_left _ _)
  | .declare i .own x e => by
      have he := Expr.slotIds_visits (σ.set x (declaredType t types σ i e)) e
      rw [Stmt.visits, slotIds_append, Stmt.ids]
      exact he.append (List.Sublist.refl _)
  | .assign _ _ e | .call _ e | .leave _ (some e) =>
      (Expr.slotIds_visits σ e).trans (List.sublist_append_left _ _)
  | .branch _ c yes none => by
      rw [Stmt.visits, slotIds_append, Stmt.ids]
      exact ((Expr.slotIds_visits σ c).append (Stmt.slotIds_visitsAll σ yes)).trans
        (List.sublist_append_left _ _)
  | .branch _ c yes (some no) => by
      rw [Stmt.visits, slotIds_append, slotIds_append, Stmt.ids]
      exact (((Expr.slotIds_visits σ c).append (Stmt.slotIds_visitsAll σ yes)).append
        (Stmt.slotIds_visitsAll _ no)).trans (List.sublist_append_left _ _)
  | .loop _ c body => by
      rw [Stmt.visits, slotIds_append, Stmt.ids]
      exact ((Expr.slotIds_visits σ c).append (Stmt.slotIds_visitsAll σ body)).trans
        (List.sublist_append_left _ _)
  | .leave _ none => List.nil_sublist _

theorem Stmt.slotIds_visitsAll (σ : Scope) :
    ∀ ss : List (Stmt NodeId), (slotIds (Stmt.visitsAll t types σ ss)).Sublist (Stmt.idsAll ss)
  | [] => List.Sublist.refl _
  | s :: ss => by
      rw [Stmt.visitsAll, slotIds_append, Stmt.idsAll]
      exact (Stmt.slotIds_visits σ s).append (Stmt.slotIds_visitsAll _ ss)

end

end FromTree

mutual

theorem Expr.visible_mem_demands {x : String} :
    ∀ e : Expr NodeId, x ∈ e.names → .visible x ∈ e.demands
  | .literal _ _, h => by cases h
  | .name _ y, h => by
      rw [Expr.names, List.mem_singleton] at h
      rw [h, Expr.demands]
      exact List.mem_singleton_self _
  | .call _ _ args, h => List.mem_cons_of_mem _ (Expr.visible_mem_demandsAll args h)

theorem Expr.visible_mem_demandsAll {x : String} :
    ∀ es : List (Expr NodeId), x ∈ Expr.namesAll es → .visible x ∈ Expr.demandsAll es
  | [], h => by cases h
  | e :: es, h => by
      rw [Expr.demandsAll, List.mem_append]
      exact (List.mem_append.mp h).imp (Expr.visible_mem_demands e) (Expr.visible_mem_demandsAll es)

end

mutual

theorem Stmt.visible_mem_demands {x : String} :
    ∀ s : Stmt NodeId, x ∈ s.names → .visible x ∈ s.demands
  | .declare _ .shared _ e, h => List.mem_cons_of_mem _ (e.visible_mem_demands h)
  | .declare _ .own _ e, h =>
      List.mem_append_left _ (List.mem_cons_of_mem _ (e.visible_mem_demands h))
  | .assign _ y e, h => by
      rw [Stmt.demands, List.mem_cons]
      obtain rfl | h := List.mem_cons.mp h
      · exact .inl rfl
      · exact .inr (e.visible_mem_demands h)
  | .call _ e, h | .leave _ (some e), h => e.visible_mem_demands h
  | .branch _ c yes none, h => by
      rw [Stmt.demands, List.mem_append]
      exact (List.mem_append.mp h).imp c.visible_mem_demands (Stmt.visible_mem_demandsAll yes)
  | .branch _ c yes (some no), h => by
      rw [Stmt.demands, List.mem_append, List.mem_append]
      exact (List.mem_append.mp h).imp
        (fun h => (List.mem_append.mp h).imp c.visible_mem_demands
          (Stmt.visible_mem_demandsAll yes))
        (Stmt.visible_mem_demandsAll no)
  | .loop _ c body, h => by
      rw [Stmt.demands, List.mem_append]
      exact (List.mem_append.mp h).imp c.visible_mem_demands (Stmt.visible_mem_demandsAll body)
  | .leave _ none, h => by cases h

theorem Stmt.visible_mem_demandsAll {x : String} :
    ∀ ss : List (Stmt NodeId), x ∈ Stmt.namesAll ss → .visible x ∈ Stmt.demandsAll ss
  | [], h => by cases h
  | s :: ss, h => by
      rw [Stmt.demandsAll, List.mem_append]
      exact (List.mem_append.mp h).imp (Stmt.visible_mem_demands s) (Stmt.visible_mem_demandsAll ss)

end

end Mis
