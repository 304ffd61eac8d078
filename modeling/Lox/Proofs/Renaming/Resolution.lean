import Lox.Proofs.Renaming.Fitting

/-!
# Resolution under another name

Resolution finds the same distances in a program under another name.

* `Renaming.Mirrors` — the scopes on both sides know the same, under the names that they have there.
* `Mirrors.distance?_eq` — so a mention is bound in the same scope.
* `Expr.findings_renamed`, `Stmt.findings_renamed` — the findings are the same.
* `resolve_renamed` — and with them the distances.
-/

namespace Lox

namespace Renaming

variable {r : Renaming} {own : Bool} {name : String}

theorem key_key (r : Renaming) (own : Bool) (name : String) : r.key own (r.key own name) = name := by
  unfold key
  cases own with
  | false => rfl
  | true =>
    cases r.declaration with
    | none => rfl
    | some d => exact Equiv.swap_apply_self _ _ _

/-- A name that is not the other name becomes this or stays. -/
theorem key_eq_or (other : name ≠ r.name) (own : Bool) :
    r.key own name = name ∨ r.key own name = r.name := by
  unfold key
  cases own with
  | false => exact .inl rfl
  | true =>
    cases r.declaration with
    | none => exact .inl rfl
    | some d =>
      by_cases old : name = d.lexeme
      · rw [old]
        exact .inr (Equiv.swap_apply_left _ _)
      · exact .inl (Equiv.swap_apply_of_ne_of_ne old other)

/-- The scopes of these sites, before and after, know the same under the names that they have there.
None knows the other name before. -/
inductive Mirrors (r : Renaming) : List Site → Scopes → Scopes → Prop where
  | top : Mirrors r [] [] []
  | inner {site : Site} {sites : List Site} {scope scope' : Scope} {outer outer' : Scopes}
      (fresh : scope.lookup r.name = none)
      (same : ∀ name, scope'.lookup (r.key (r.opens site) name) = scope.lookup name)
      (around : Mirrors r sites outer outer') :
      Mirrors r (site :: sites) (scope :: outer) (scope' :: outer')

namespace Mirrors

variable {site : Site} {sites : List Site} {scope scope' : Scope} {scopes scopes' : Scopes}
variable {after after' : Scopes} {ready : Bool}

/-- Outside of all sites there are no scopes. -/
theorem eq_nil (h : Mirrors r [] scopes scopes') : scopes' = [] := by
  cases h
  rfl

/-- What is not in a scope is not there either under the name that another scope has for it. -/
theorem lookup_none (fresh : scope.lookup r.name = none)
    (same : ∀ name, scope'.lookup (r.key own name) = scope.lookup name) (other : name ≠ r.name)
    (absent : scope.lookup name = none) (elsewhere : Bool) :
    scope'.lookup (r.key elsewhere name) = none := by
  rw [← r.key_key own (r.key elsewhere name), same]
  by_cases equal : own = elsewhere
  · rw [equal, key_key]
    exact absent
  · -- one of the scopes has the renamed declaration, the other one has not
    have changed : r.key own (r.key elsewhere name) = r.key true name := by
      cases own <;> cases elsewhere <;> first | rfl | exact absurd rfl equal
    rw [changed]
    rcases key_eq_or other true with kept | new
    · rw [kept]
      exact absent
    · rw [new]
      exact fresh

/-- A mention is bound in the same scope, under the name that this has for it. -/
theorem distance?_eq (h : Mirrors r sites scopes scopes') (other : name ≠ r.name) :
    scopes'.distance?
      (r.key ((scopes.distance? name).any fun k => sites[k]?.any r.opens) name) =
        scopes.distance? name := by
  induction h with
  | top => rfl
  | @inner site sites scope scope' outer outer' fresh same around ih =>
    simp only [Scopes.distance?_cons]
    cases found : scope.lookup name with
    | some b =>
      simp only [Option.isSome_some, if_true, Option.any_some, List.getElem?_cons_zero]
      rw [same, found]
      rfl
    | none =>
      simp only [Option.isSome_none, Bool.false_eq_true, if_false, Option.any_map,
        List.getElem?_cons_succ]
      rw [lookup_none fresh same other found, ih]
      rfl

/-- The value of a mention is just being worked out before and after, or neither. -/
theorem initializing_eq (h : Mirrors r sites scopes scopes') (other : name ≠ r.name) :
    scopes'.initializing
      (r.key ((scopes.distance? name).any fun k => sites[k]?.any r.opens) name) =
        scopes.initializing name := by
  cases h with
  | top => rfl
  | @inner site sites scope scope' outer outer' fresh same around =>
    simp only [Scopes.distance?_cons, Scopes.initializing]
    cases found : scope.lookup name with
    | some b =>
      simp only [Option.isSome_some, if_true, Option.any_some, List.getElem?_cons_zero]
      rw [same, found]
    | none => rw [lookup_none fresh same other found]

theorem taken_eq (h : Mirrors r sites scopes scopes') (name : String) :
    scopes'.taken (r.key (r.here sites) name) = scopes.taken name := by
  cases h with
  | top => rfl
  | inner fresh same around => exact congrArg Option.isSome (same name)

/-- The innermost scopes get what is declared there. -/
theorem gets (h : Mirrors r sites scopes scopes') (other : name ≠ r.name)
    (gets : Scopes.Gets scopes after name ready)
    (gets' : Scopes.Gets scopes' after' (r.key (r.here sites) name) ready) :
    Mirrors r sites after after' := by
  cases h with
  | top =>
    cases gets
    cases gets'
    exact .top
  | @inner site sites scope scope' outer outer' fresh same around =>
    obtain ⟨scope₁, rfl, marks⟩ := gets
    obtain ⟨scope₁', rfl, marks'⟩ := gets'
    refine .inner ?_ (fun asked => ?_) around
    · rw [marks.others _ other.symm]
      exact fresh
    · by_cases declared : asked = name
      · rw [declared, marks.self]
        exact marks'.self
      · have kept := marks'.others _ fun equal => declared (r.key_injective _ equal)
        rw [marks.others _ declared]
        exact kept.trans (same asked)

theorem declare (h : Mirrors r sites scopes scopes') (other : name ≠ r.name)
    (untaken : scopes.taken name = false) :
    Mirrors r sites (scopes.declare name) (scopes'.declare (r.key (r.here sites) name)) :=
  h.gets other (Scopes.gets_declare untaken)
    (Scopes.gets_declare ((h.taken_eq name).trans untaken))

theorem define (h : Mirrors r sites scopes scopes') (other : name ≠ r.name) :
    Mirrors r sites (scopes.define name) (scopes'.define (r.key (r.here sites) name)) :=
  h.gets other (Scopes.gets_define _ _) (Scopes.gets_define _ _)

theorem introduce {t t' : Token} (h : Mirrors r sites scopes scopes') (other : t.lexeme ≠ r.name)
    (renamed : t'.lexeme = r.key (r.here sites) t.lexeme) :
    Mirrors r sites (scopes.introduce t) (scopes'.introduce t') :=
  h.gets other (Scopes.gets_introduce _ _) (renamed ▸ Scopes.gets_introduce _ _)

/-- A declaration without a fault has none under its new name. -/
theorem declaring_eq {t t' : Token} (h : Mirrors r sites scopes scopes')
    (renamed : t'.lexeme = r.key (r.here sites) t.lexeme) (noFault : NoFault (scopes.declaring t)) :
    scopes'.declaring t' = scopes.declaring t := by
  have untaken := Scopes.not_taken_of_declaring noFault
  unfold Scopes.declaring
  rw [renamed, h.taken_eq, untaken]
  rfl

/-- So it is for parameters. -/
theorem introduceAll {names : List Token} (h : Mirrors r sites scopes scopes')
    (fresh : ∀ t ∈ names, t.lexeme ≠ r.name)
    (renamed : ∀ t ∈ names, (r.declare t).lexeme = r.key (r.here sites) t.lexeme)
    (noFault : NoFault (scopes.introduceAll names).1) :
    (scopes'.introduceAll (names.map r.declare)).1 = (scopes.introduceAll names).1 ∧
      Mirrors r sites (scopes.introduceAll names).2 (scopes'.introduceAll (names.map r.declare)).2 := by
  induction names generalizing scopes scopes' with
  | nil => exact ⟨rfl, h⟩
  | cons t names ih =>
    obtain ⟨first, others⟩ := NoFault.append_iff.1 noFault
    rw [List.forall_mem_cons] at fresh renamed
    obtain ⟨same, mirrors⟩ := ih (h.introduce fresh.1 renamed.1) fresh.2 renamed.2 others
    refine ⟨?_, mirrors⟩
    simp only [List.map_cons, Scopes.introduceAll]
    rw [h.declaring_eq renamed.1 first, same]

end Mirrors

end Renaming

/-! ## Findings -/

section Findings

variable {r : Renaming}

/-- A mention is bound where it was. -/
theorem Renaming.Mirrors.mention_eq {μ : Mention} {scopes' : Scopes}
    (h : r.Mirrors μ.place.sites μ.place.scopes scopes') (knows : r.Knows μ)
    (other : μ.name.lexeme ≠ r.name) :
    scopes'.mention μ.id (r.mention μ.id μ.name) = μ.place.scopes.mention μ.id μ.name := by
  have same : scopes'.distance? (r.key (r.binds μ) μ.name.lexeme) =
      μ.place.scopes.distance? μ.name.lexeme := h.distance?_eq other
  unfold Scopes.mention
  rw [knows.lexeme, same]

mutual

/-- The findings about an expression are the same under the other name. -/
theorem Expr.findings_renamed {p : Place} {scopes' : Scopes}
    (h : r.Mirrors p.sites p.scopes scopes') : ∀ e : Expr,
    (∀ μ ∈ e.mentions p, r.Knows μ) → r.name ∉ e.names → NoFault (e.findings p.scopes) →
    (e.renamed r).findings scopes' = e.findings p.scopes
  | .literal _, _, _, _ => rfl
  | .grouping inner, knows, fresh, noFault | .unary _ inner, knows, fresh, noFault =>
    Expr.findings_renamed h inner knows fresh noFault
  | .binary left _ right, knows, fresh, noFault | .logical left _ right, knows, fresh, noFault => by
    obtain ⟨inLeft, inRight⟩ := List.forall_mem_append.1 knows
    obtain ⟨notLeft, notRight⟩ := not_or.1 (mt List.mem_append.2 fresh)
    obtain ⟨noFaultLeft, noFaultRight⟩ := NoFault.append_iff.1 noFault
    simp only [Expr.renamed, Expr.findings]
    rw [Expr.findings_renamed h left inLeft notLeft noFaultLeft,
      Expr.findings_renamed h right inRight notRight noFaultRight]
  | .var id name, knows, fresh, noFault => by
    have own := knows _ (List.mem_singleton_self _)
    have other : name.lexeme ≠ r.name := Ne.symm (List.ne_of_not_mem_cons fresh)
    have inTime : p.scopes.initializing name.lexeme = false :=
      Expr.inTime p (.var id name) noFault _ (List.mem_singleton_self _) rfl
    have inTime' := h.initializing_eq other
    simp only [Expr.renamed, Expr.findings]
    rw [inTime, own.lexeme, Renaming.Mirrors.mention_eq (μ := ⟨id, name, false, p⟩) h own other]
    exact congrArg (fun b : Bool => (if b then _ else _) ++ _) (inTime'.trans inTime)
  | .assign id target value, knows, fresh, noFault => by
    obtain ⟨inValue, own⟩ := List.forall_mem_append.1 knows
    obtain ⟨other, notValue⟩ := not_or.1 (mt List.mem_cons.2 fresh)
    simp only [Expr.renamed, Expr.findings]
    rw [Expr.findings_renamed h value inValue notValue (NoFault.append_iff.1 noFault).1,
      Renaming.Mirrors.mention_eq (μ := ⟨id, target, true, p⟩) h
        (own _ (List.mem_singleton_self _)) (Ne.symm other)]
  | .call callee _ arguments, knows, fresh, noFault => by
    obtain ⟨inCallee, inArguments⟩ := List.forall_mem_append.1 knows
    obtain ⟨notCallee, notArguments⟩ := not_or.1 (mt List.mem_append.2 fresh)
    obtain ⟨noFaultCallee, noFaultArguments⟩ := NoFault.append_iff.1 noFault
    simp only [Expr.renamed, Expr.findings]
    rw [Expr.findings_renamed h callee inCallee notCallee noFaultCallee,
      Expr.findingsAll_renamed h arguments inArguments notArguments noFaultArguments]

theorem Expr.findingsAll_renamed {p : Place} {scopes' : Scopes}
    (h : r.Mirrors p.sites p.scopes scopes') : ∀ es : List Expr,
    (∀ μ ∈ Expr.mentionsAll p es, r.Knows μ) → r.name ∉ Expr.namesAll es →
    NoFault (Expr.findingsAll p.scopes es) →
    Expr.findingsAll scopes' (Expr.renamedAll r es) = Expr.findingsAll p.scopes es
  | [], _, _, _ => rfl
  | e :: es, knows, fresh, noFault => by
    obtain ⟨inFirst, inOthers⟩ := List.forall_mem_append.1 knows
    obtain ⟨notFirst, notOthers⟩ := not_or.1 (mt List.mem_append.2 fresh)
    obtain ⟨noFaultFirst, noFaultOthers⟩ := NoFault.append_iff.1 noFault
    simp only [Expr.renamedAll, Expr.findingsAll]
    rw [Expr.findings_renamed h e inFirst notFirst noFaultFirst,
      Expr.findingsAll_renamed h es inOthers notOthers noFaultOthers]

end

theorem Expr.findings?_renamed {p : Place} {scopes' : Scopes}
    (h : r.Mirrors p.sites p.scopes scopes') {o : Option Expr}
    (knows : ∀ μ ∈ Expr.mentions? p o, r.Knows μ) (fresh : r.name ∉ Expr.names? o)
    (noFault : NoFault (Expr.findings? p.scopes o)) :
    Expr.findings? scopes' (Expr.renamed? r o) = Expr.findings? p.scopes o := by
  cases o with
  | none => rfl
  | some e => exact Expr.findings_renamed h e knows fresh noFault

mutual

/-- The findings about a statement are the same under the other name, and the scopes behind it know
the same. -/
theorem Stmt.findings_renamed (inFunction : Bool) : ∀ (s : Stmt) {p : Place} {scopes' : Scopes},
    r.Mirrors p.sites p.scopes scopes' → s.Fits r (r.here p.sites) →
    (∀ μ ∈ s.mentions p, r.Knows μ) → r.name ∉ s.names → s.Plain →
    NoFault (s.findings inFunction p.scopes).1 →
    ((s.renamed r).findings inFunction scopes').1 = (s.findings inFunction p.scopes).1 ∧
      r.Mirrors p.sites (s.findings inFunction p.scopes).2
        ((s.renamed r).findings inFunction scopes').2
  | .expression value, p, _, h, _, knows, fresh, _, noFault
  | .print _ value, p, _, h, _, knows, fresh, _, noFault =>
    ⟨Expr.findings_renamed h value knows fresh noFault, h⟩
  | .var name initializer, p, scopes', h, fits, knows, fresh, _, noFault => by
    obtain ⟨other, notInitializer⟩ := not_or.1 (mt List.mem_cons.2 fresh)
    obtain ⟨noFaultName, noFaultInitializer⟩ := NoFault.append_iff.1 noFault
    have declared := h.declare (Ne.symm other) (Scopes.not_taken_of_declaring noFaultName)
    have value := Expr.findings?_renamed (p := p.inInitializer name) declared knows notInitializer
      noFaultInitializer
    have fits' : (r.declare name).lexeme = r.key (r.here p.sites) name.lexeme := fits
    simp only [Stmt.renamed, Stmt.findings]
    rw [h.declaring_eq fits' noFaultName, fits', value]
    exact ⟨rfl, declared.define (Ne.symm other)⟩
  | .block body, p, scopes', h, fits, knows, fresh, plain, noFault => by
    have inside : r.Mirrors (p.inBlock body).sites (p.inBlock body).scopes ([] :: scopes') :=
      .inner rfl (fun _ => rfl) h
    exact ⟨(Stmt.findingsAll_renamed inFunction body inside fits knows fresh plain noFault).1, h⟩
  | .ifThen condition yes none, p, scopes', h, fits, knows, fresh, plain, noFault => by
    obtain ⟨inCondition, inYes⟩ := List.forall_mem_append.1 knows
    obtain ⟨notCondition, notYes⟩ := not_or.1 (mt List.mem_append.2 fresh)
    obtain ⟨noFaultCondition, noFaultYes⟩ := NoFault.append_iff.1 noFault
    obtain ⟨same, mirrors⟩ := Stmt.findings_renamed inFunction yes h fits inYes notYes plain.2
      noFaultYes
    simp only [Stmt.renamed, Stmt.findings]
    rw [Expr.findings_renamed h condition inCondition notCondition noFaultCondition, same]
    exact ⟨rfl, mirrors⟩
  | .ifThen condition yes (some no), p, scopes', h, ⟨fits, fits'⟩, knows, fresh, ⟨plain, plain'⟩,
      noFault => by
    obtain ⟨knows, inNo⟩ := List.forall_mem_append.1 knows
    obtain ⟨inCondition, inYes⟩ := List.forall_mem_append.1 knows
    obtain ⟨fresh, notNo⟩ := not_or.1 (mt List.mem_append.2 fresh)
    obtain ⟨notCondition, notYes⟩ := not_or.1 (mt List.mem_append.2 fresh)
    simp only [Stmt.findings, NoFault.append_iff] at noFault
    obtain ⟨⟨noFaultCondition, noFaultYes⟩, noFaultNo⟩ := noFault
    have behind : (yes.findings inFunction p.scopes).2 = p.scopes :=
      (Stmt.resolved inFunction p yes plain.2 noFaultYes).1.trans
        (Scopes.behind_of_none plain.1 _)
    obtain ⟨same, mirrors⟩ := Stmt.findings_renamed inFunction yes h fits inYes notYes plain.2
      noFaultYes
    rw [behind] at noFaultNo mirrors
    obtain ⟨same', mirrors'⟩ := Stmt.findings_renamed inFunction no mirrors fits' inNo notNo plain'.2
      noFaultNo
    simp only [Stmt.renamed, Stmt.findings]
    rw [Expr.findings_renamed h condition inCondition notCondition noFaultCondition, same, behind,
      same']
    exact ⟨rfl, mirrors'⟩
  | .whileDo condition body, p, scopes', h, fits, knows, fresh, plain, noFault => by
    obtain ⟨inCondition, inBody⟩ := List.forall_mem_append.1 knows
    obtain ⟨notCondition, notBody⟩ := not_or.1 (mt List.mem_append.2 fresh)
    obtain ⟨noFaultCondition, noFaultBody⟩ := NoFault.append_iff.1 noFault
    obtain ⟨same, mirrors⟩ := Stmt.findings_renamed inFunction body h fits inBody notBody plain.2
      noFaultBody
    simp only [Stmt.renamed, Stmt.findings]
    rw [Expr.findings_renamed h condition inCondition notCondition noFaultCondition, same]
    exact ⟨rfl, mirrors⟩
  | .function name parameters body, p, scopes', h, ⟨kept, fits, fitsAll⟩, knows, fresh, plain,
      noFault => by
    obtain ⟨notHead, notBody⟩ := not_or.1 (mt List.mem_append.2 fresh)
    obtain ⟨notName, notParameters⟩ := not_or.1 (mt List.mem_cons.2 notHead)
    have freshParameters : ∀ t ∈ parameters, t.lexeme ≠ r.name := fun t mem same =>
      notParameters (same ▸ List.mem_map_of_mem mem)
    simp only [Stmt.findings, NoFault.append_iff] at noFault
    obtain ⟨⟨noFaultName, noFaultParameters⟩, noFaultBody⟩ := noFault
    have known := @Renaming.Mirrors.introduce _ _ _ _ name name h (Ne.symm notName) kept.symm
    have opened : r.Mirrors (.function name parameters body :: p.sites)
        ([] :: p.scopes.introduce name) ([] :: scopes'.introduce name) :=
      .inner rfl (fun _ => rfl) known
    obtain ⟨same, inside⟩ := opened.introduceAll freshParameters fits noFaultParameters
    have inner := Stmt.findingsAll_renamed true body
      (p := p.inFunction name parameters body) inside fitsAll knows notBody plain noFaultBody
    simp only [Stmt.renamed, Stmt.findings]
    rw [h.declaring_eq kept.symm noFaultName, same]
    exact ⟨congrArg (_ ++ ·) inner.1, known⟩
  | .ret keyword value, p, scopes', h, _, knows, fresh, _, noFault => by
    simp only [Stmt.renamed, Stmt.findings]
    rw [Expr.findings?_renamed h knows fresh (NoFault.append_iff.1 noFault).2]
    exact ⟨rfl, h⟩

theorem Stmt.findingsAll_renamed (inFunction : Bool) : ∀ (ss : List Stmt) {p : Place}
    {scopes' : Scopes}, r.Mirrors p.sites p.scopes scopes' →
    Stmt.FitsAll r (r.here p.sites) ss → (∀ μ ∈ Stmt.mentionsAll p ss, r.Knows μ) →
    r.name ∉ Stmt.namesAll ss → Stmt.PlainAll ss →
    NoFault (Stmt.findingsAll inFunction p.scopes ss).1 →
    (Stmt.findingsAll inFunction scopes' (Stmt.renamedAll r ss)).1 =
        (Stmt.findingsAll inFunction p.scopes ss).1 ∧
      r.Mirrors p.sites (Stmt.findingsAll inFunction p.scopes ss).2
        (Stmt.findingsAll inFunction scopes' (Stmt.renamedAll r ss)).2
  | [], _, _, h, _, _, _, _, _ => ⟨rfl, h⟩
  | s :: ss, p, scopes', h, ⟨fits, fitsAll⟩, knows, fresh, ⟨plain, plainAll⟩, noFault => by
    obtain ⟨inFirst, inOthers⟩ := List.forall_mem_append.1 knows
    obtain ⟨notFirst, notOthers⟩ := not_or.1 (mt List.mem_append.2 fresh)
    obtain ⟨noFaultFirst, noFaultOthers⟩ := NoFault.append_iff.1 noFault
    have behind := (Stmt.resolved inFunction p s plain noFaultFirst).1
    obtain ⟨same, mirrors⟩ := Stmt.findings_renamed inFunction s h fits inFirst notFirst plain
      noFaultFirst
    rw [behind] at noFaultOthers mirrors
    obtain ⟨same', mirrors'⟩ := Stmt.findingsAll_renamed inFunction ss (p := p.behind s) mirrors
      fitsAll inOthers notOthers plainAll noFaultOthers
    simp only [Stmt.renamedAll, Stmt.findingsAll]
    rw [same, behind]
    exact ⟨congrArg (_ ++ ·) same', mirrors'⟩

end

/-! ## Programs -/

/-- Outside of blocks and functions there are no scopes on either side. -/
theorem Stmt.findings_renamedOutside (s : Stmt)
    (fits : (∀ name initializer, s ≠ .var name initializer) → s.Fits r false)
    (knows : ∀ μ ∈ s.mentions .top, r.Knows μ) (fresh : r.name ∉ s.names) (plain : s.Plain)
    (noFault : NoFault (s.findings false []).1) :
    ((s.renamedOutside r).findings false []).1 = (s.findings false []).1 ∧
      ((s.renamedOutside r).findings false []).2 = [] := by
  by_cases global : ∃ name initializer, s = .var name initializer
  · obtain ⟨name, initializer, rfl⟩ := global
    have value := Expr.findings?_renamed (p := Place.top.inInitializer name) .top knows
      (List.not_mem_of_not_mem_cons fresh) (NoFault.append_iff.1 noFault).2
    exact ⟨congrArg (Scopes.declaring [] name ++ ·) value, rfl⟩
  · have notGlobal : ∀ name initializer, s ≠ .var name initializer := fun name initializer same =>
      global ⟨name, initializer, same⟩
    rw [Stmt.renamedOutside_eq notGlobal]
    obtain ⟨same, mirrors⟩ := Stmt.findings_renamed false s (p := .top) .top (fits notGlobal) knows
      fresh plain noFault
    exact ⟨same, mirrors.eq_nil⟩

/-- The findings about a program are the same under the other name. -/
theorem Program.findings_renamed (ss : List Stmt)
    (fits : ∀ s ∈ ss, (∀ name initializer, s ≠ .var name initializer) → s.Fits r false)
    (knows : ∀ μ ∈ Stmt.mentionsAll .top ss, r.Knows μ) (fresh : r.name ∉ Stmt.namesAll ss)
    (plain : Stmt.PlainAll ss) (noFault : NoFault (programFindings ss)) :
    programFindings (Program.renamed r ss) = programFindings ss := by
  induction ss with
  | nil => rfl
  | cons s ss ih =>
    obtain ⟨inFirst, inOthers⟩ := List.forall_mem_append.1 knows
    obtain ⟨notFirst, notOthers⟩ := not_or.1 (mt List.mem_append.2 fresh)
    obtain ⟨noFaultFirst, noFaultOthers⟩ := NoFault.append_iff.1 noFault
    have behind : (s.findings false []).2 = [] :=
      (Stmt.resolved false .top s plain.1 noFaultFirst).1.trans (Scopes.behind_nil s)
    have top : Place.top.behind s = .top := by rw [Place.behind, Place.top, Scopes.behind_nil]
    rw [behind] at noFaultOthers
    rw [top] at inOthers
    obtain ⟨same, none⟩ := s.findings_renamedOutside (fits s List.mem_cons_self) inFirst notFirst
      plain.1 noFaultFirst
    have others := ih (fun s mem => fits s (List.mem_cons_of_mem _ mem)) inOthers notOthers plain.2
      noFaultOthers
    unfold programFindings at others ⊢
    simp only [Program.renamed, List.map_cons, Stmt.findingsAll]
    rw [same, none, behind]
    exact congrArg (_ ++ ·) others

end Findings

/-- **Resolution does not depend on the names of local variables.** A program without errors has none
under the other name, and all its mentions have the same distances. -/
theorem Checked.resolve_renamed {firstId nextId : RefId} {source : String} {c : Checked} {d : Token}
    {name : String} (checked : ofSource firstId source = (.ok c, nextId))
    (fresh : name ∉ Stmt.namesAll c.program) :
    resolve (Program.renamed (.of c.program d name) c.program) = .ok c.distances := by
  obtain ⟨tokens, -, parsed, resolved⟩ := ofSource_parts checked
  have sound := sound_of_ofTokens parsed resolved
  have same := Program.findings_renamed c.program (sound.fits (d := d) fresh)
    (fun μ => sound.knows fresh) fresh (Program.plain_of_ofTokens parsed)
    (noFault_of_resolve resolved).1
  rw [← resolved]
  unfold resolve
  rw [same]

end Lox
