import Tsumugi.Engine.Specifier
import Tsumugi.Lib.DepthFirst

/-!
# What import resolution finds

With a resolver that answers a specifier with the same bytes every time, the import
statements of the modules are the edges of a fixed graph, and `resolve_module_imports`
is a depth-first search of it.

Results:
1. `resolveModuleImports_simulates`: the resolution follows the search step by step,
   unless it is cancelled or the resolver fails.
2. `linkInner_graph`: the graph of a linked script.
3. `import_resolution_sound`: the graph, the reported cycles, and what the order of the
   imports can change.
-/

namespace Tsumugi.LinkTime

open Capability Hash DepthFirst

variable {W : Type}

/-! ## Sources -/

/-- The bytes of a source that can be read to its end. -/
def ModuleSource.content : ModuleSource → Option (List UInt8)
  | .eof => some []
  | .failed _ => none
  | .bytes chunk rest => rest.content.map (chunk ++ ·)

/-- Every chunk keeps the limit. -/
def ModuleSource.Fits : ModuleSource → Prop
  | .eof | .failed _ => True
  | .bytes chunk rest => chunk.length ≤ chunkBytes ∧ rest.Fits

/-- The bytes behind each specifier in normal form, if there are any. -/
abbrev Contents : Type := ModuleId → Option (List UInt8)

/-- A source that the resolver hands out and that can be read has the bytes of its specifier. -/
def Serves (resolver : ModuleResolver W) (revision : Audit.LanguageRevision)
    (contents : Contents) : Prop :=
  ∀ callId importer id w m w' bytes,
    resolver.resolve callId ⟨importer, id.name, revision⟩ w = (.ok m, w') →
      m.source.content = some bytes → contents id = some bytes

/-- The cancel token is never set. -/
def LinkRequest.Quiet (request : LinkRequest W) : Prop := ∀ w, (request.isCancelled w).1 = false

/-- The resolver answers every specifier that has bytes, with the id and chunks it should. -/
def Obliging (resolver : ModuleResolver W) (revision : Audit.LanguageRevision)
    (contents : Contents) : Prop :=
  ∀ callId importer id w bytes, contents id = some bytes →
    ∃ m w', resolver.resolve callId ⟨importer, id.name, revision⟩ w = (.ok m, w') ∧ m.id = id ∧
      m.source.content = some bytes ∧ m.source.Fits

/-- The two errors that speak about the graph as a whole. -/
def LinkError.isGraphStop : LinkError → Bool
  | .cycle _ | .depthExceeded _ => true
  | _ => false

@[simp] theorem isGraphStop_adapter (e : AdapterError) :
    (adapterErrorToLinkError e).isGraphStop = false := by
  cases e with
  | control stop => cases stop <;> rfl
  | _ => rfl

/-- What reading leaves alone. -/
def Resolving.Same (s t : Resolving W) : Prop := t.resolved = s.resolved ∧ t.nodeMap = s.nodeMap

theorem Resolving.Same.trans {s t u : Resolving W} (h : s.Same t) (h' : t.Same u) : s.Same u :=
  ⟨h'.1.trans h.1, h'.2.trans h.2⟩

theorem checkCancelled_run (request : LinkRequest W) (s : Resolving W) :
    ∃ t, s.Same t ∧ ((checkCancelled request).run s = (.ok (), t) ∨
      (checkCancelled request).run s = (.error (.raised .cancelled), t) ∧ ¬ request.Quiet) := by
  refine ⟨{ s with world := (request.isCancelled s.world).2 }, ⟨rfl, rfl⟩, ?_⟩
  cases hcancelled : (request.isCancelled s.world).1 with
  | false => exact .inl (by simp [checkCancelled, Proc.bind_run, hcancelled])
  | true =>
    refine .inr ⟨by simp [checkCancelled, Proc.bind_run, hcancelled, fail], fun hquiet => ?_⟩
    rw [hquiet] at hcancelled
    cases hcancelled

/-- A chunk is read after the cancel token was seen unset. -/
theorem beforeChunk_run {α : Type} (request : LinkRequest W) (read : Search W α) (s : Resolving W) :
    ∃ t, s.Same t ∧
      ((do checkCancelled request; let _ ← nextCallId; read : Search W α).run s = read.run t ∨
        (do checkCancelled request; let _ ← nextCallId; read : Search W α).run s
          = (.error (.raised .cancelled), t) ∧ ¬ request.Quiet) := by
  obtain ⟨t, hsame, hrun | ⟨hrun, hquiet⟩⟩ := checkCancelled_run request s
  · refine ⟨{ t with callId := t.callId + 1 }, hsame, .inl ?_⟩
    rw [Proc.bind_run_ok hrun]
    rfl
  · exact ⟨t, hsame, .inr ⟨Proc.bind_run_error hrun, hquiet⟩⟩

/-- Reading returns the content, or fails for a reason outside the graph. -/
theorem readModuleSource_run (request : LinkRequest W) (source : ModuleSource) :
    ∀ (bytes : List UInt8) (s : Resolving W), ∃ t, s.Same t ∧
      ((∃ content, source.content = some content ∧
        (readModuleSource request bytes source).run s = (.ok (bytes ++ content), t)) ∨
      ∃ e, (readModuleSource request bytes source).run s = (.error (.raised e), t) ∧
        e.isGraphStop = false ∧ (request.Quiet → source.Fits → source.content = none)) := by
  induction source with
  | eof =>
    intro bytes s
    obtain ⟨t, hsame, hrun | ⟨hrun, hquiet⟩⟩ := beforeChunk_run request (pure bytes) s
    · exact ⟨t, hsame, .inl ⟨[], rfl, by rw [List.append_nil]; exact hrun⟩⟩
    · exact ⟨t, hsame, .inr ⟨_, hrun, rfl, fun h => absurd h hquiet⟩⟩
  | failed error =>
    intro bytes s
    obtain ⟨t, hsame, hrun | ⟨hrun, hquiet⟩⟩ :=
      beforeChunk_run (α := List UInt8) request (fail (adapterErrorToLinkError error)) s
    · exact ⟨t, hsame, .inr ⟨_, hrun, by simp, fun _ _ => rfl⟩⟩
    · exact ⟨t, hsame, .inr ⟨_, hrun, rfl, fun h => absurd h hquiet⟩⟩
  | bytes chunk rest ih =>
    intro bytes s
    obtain ⟨t, hsame, hrun | ⟨hrun, hquiet⟩⟩ := beforeChunk_run request
      (if chunkBytes < chunk.length then fail (.resolve (hostError "resolver_contract_violation"))
        else readModuleSource request (bytes ++ chunk) rest) s
    · change (readModuleSource request bytes (.bytes chunk rest)).run s = _ at hrun
      by_cases hlong : chunkBytes < chunk.length
      · rw [if_pos hlong] at hrun
        exact ⟨t, hsame, .inr ⟨.resolve (hostError "resolver_contract_violation"), hrun, rfl,
          fun _ hfits => absurd hfits.1 (by omega)⟩⟩
      · rw [if_neg hlong] at hrun
        obtain ⟨u, hsame', ⟨content, hcontent, hread⟩ | ⟨e, hread, he, hnone⟩⟩ :=
          ih (bytes ++ chunk) t
        · refine ⟨u, hsame.trans hsame', .inl ⟨chunk ++ content, ?_, ?_⟩⟩
          · simp [ModuleSource.content, hcontent]
          · rw [← List.append_assoc]
            exact hrun.trans hread
        · refine ⟨u, hsame.trans hsame', .inr ⟨e, hrun.trans hread, he, fun hquiet hfits => ?_⟩⟩
          simp [ModuleSource.content, hnone hquiet hfits.2]
    · exact ⟨t, hsame, .inr ⟨_, hrun, rfl, fun h => absurd h hquiet⟩⟩

/-! ## The graph of the import statements -/

theorem mem_importSpecifiers {program : Program} {path : String} {line : Nat} :
    (path, line) ∈ importSpecifiers program ↔ .«import» path line ∈ program := by
  rw [importSpecifiers, List.mem_filterMap]
  constructor
  · rintro ⟨stmt, hmem, hstmt⟩
    cases stmt <;> simp_all
  · exact fun h => ⟨_, h, rfl⟩

section Graph

variable (resolver : ModuleResolver W) (parse : Parse) (contents : Contents)

/-- The program of a module. -/
def moduleProgram (id : ModuleId) : Option Program :=
  (contents id).bind fun bytes => (compileModule parse id bytes).toOption

/-- The module that an import statement names. -/
def importTarget (specifier : String × Nat) : Option ModuleId :=
  (normalizeSpecifier resolver.knowsMount specifier.1).toOption

/-- The modules that a module names, in source order. -/
def importsOf : Graph ModuleId := fun id =>
  (moduleProgram parse contents id).map fun program =>
    (importSpecifiers program).map (importTarget resolver)

end Graph

/-- The edges of the graph are the import statements. -/
theorem edge_iff {resolver : ModuleResolver W} {parse : Parse} {contents : Contents}
    {a b : ModuleId} : Edge (importsOf resolver parse contents) a b ↔
      ∃ program path line, moduleProgram parse contents a = some program ∧
        .«import» path line ∈ program ∧ normalizeSpecifier resolver.knowsMount path = .ok b := by
  have hok (path : String) : (normalizeSpecifier resolver.knowsMount path).toOption = some b ↔
      normalizeSpecifier resolver.knowsMount path = .ok b := by
    cases normalizeSpecifier resolver.knowsMount path <;> simp [Except.toOption]
  constructor
  · rintro ⟨targets, hnext, hb⟩
    obtain ⟨program, hprogram, rfl⟩ := Option.map_eq_some_iff.mp hnext
    obtain ⟨⟨path, line⟩, hmem, htarget⟩ := List.mem_map.mp hb
    exact ⟨program, path, line, hprogram, mem_importSpecifiers.mp hmem, (hok path).mp htarget⟩
  · rintro ⟨program, path, line, hprogram, hmem, htarget⟩
    exact ⟨_, Option.map_eq_some_iff.mpr ⟨program, hprogram, rfl⟩,
      List.mem_map.mpr ⟨(path, line), mem_importSpecifiers.mpr hmem, (hok path).mpr htarget⟩⟩

/-- Nothing outside the graph stops the resolution. -/
def Undisturbed (env : Surroundings W) (contents : Contents) : Prop :=
  env.request.Quiet ∧ Obliging env.resolver env.revision contents

/-- The source of a module, or an error from outside the graph. -/
theorem fetch_run {env : Surroundings W} {contents : Contents}
    (hserves : Serves env.resolver env.revision contents) (importer : Option ModuleId)
    (id : ModuleId) (s : Resolving W) :
    ∃ t, s.Same t ∧
      ((∃ bytes, contents id = some bytes ∧ (fetch env importer id).run s = (.ok bytes, t)) ∨
      ∃ e, (fetch env importer id).run s = (.error (.raised e), t) ∧ e.isGraphStop = false ∧
        (Undisturbed env contents → contents id = none)) := by
  let s₁ : Resolving W := { s with callId := s.callId + 1 }
  rcases hresolve : env.resolver.resolve (s.callId + 1) ⟨importer, id.name, env.revision⟩ s.world
    with ⟨e | m, w⟩
  · refine ⟨{ s₁ with world := w }, ⟨rfl, rfl⟩, .inr ⟨adapterErrorToLinkError e, ?_, by simp, ?_⟩⟩
    · simp [fetch, nextCallId, Proc.bind_run, hresolve, fail, s₁]
    · rintro ⟨-, hobliging⟩
      by_contra hne
      obtain ⟨bytes, hbytes⟩ := Option.ne_none_iff_exists'.mp hne
      obtain ⟨m, w', hm, -⟩ := hobliging (s.callId + 1) importer id s.world bytes hbytes
      rw [hresolve] at hm
      cases hm
  · have hobliged : Undisturbed env contents → ∀ bytes, contents id = some bytes →
        m.id = id ∧ m.source.content = some bytes ∧ m.source.Fits := by
      rintro ⟨-, hobliging⟩ bytes hbytes
      obtain ⟨m', w', hm, h⟩ := hobliging (s.callId + 1) importer id s.world bytes hbytes
      rw [hresolve] at hm
      cases hm
      exact h
    have hnone (hdiffers : Undisturbed env contents → ∀ bytes, m.id = id →
        m.source.content = some bytes → m.source.Fits → False) :
        Undisturbed env contents → contents id = none := by
      intro h
      by_contra hne
      obtain ⟨bytes, hbytes⟩ := Option.ne_none_iff_exists'.mp hne
      obtain ⟨hid, hcontent, hfits⟩ := hobliged h bytes hbytes
      exact hdiffers h bytes hid hcontent hfits
    by_cases hid : m.id = id
    · obtain ⟨t, hsame, ⟨content, hcontent, hread⟩ | ⟨e, hread, he, hstop⟩⟩ :=
        readModuleSource_run env.request m.source [] { s₁ with world := w }
      · refine ⟨t, hsame, .inl ⟨content, hserves _ _ _ _ _ _ _ hresolve hcontent, ?_⟩⟩
        simpa [fetch, nextCallId, Proc.bind_run, hresolve, hid, s₁] using hread
      · refine ⟨t, hsame, .inr ⟨e, ?_, he, hnone fun h bytes _ hcontent hfits => ?_⟩⟩
        · simpa [fetch, nextCallId, Proc.bind_run, hresolve, hid, s₁] using hread
        · rw [hstop h.1 hfits] at hcontent
          cases hcontent
    · refine ⟨{ s₁ with world := w }, ⟨rfl, rfl⟩,
        .inr ⟨.resolve (hostError "internal_resolver_fault"), ?_, rfl, hnone fun _ _ h _ _ => hid h⟩⟩
      simp [fetch, nextCallId, Proc.bind_run, hresolve, hid, fail, s₁]

/-! ## The resolution follows the search -/

section Simulation

variable {env : Surroundings W} {contents : Contents}

/-- The node of a finished vertex. -/
def nodeOf (contents : Contents) (e : ModuleId × List ModuleId) : ImportNode :=
  ⟨e.1, hashOf ((contents e.1).getD []), e.2⟩

/-- The maps of the resolution are those of the search. -/
structure Tracks (contents : Contents) (s : Resolving W) (m : Memo ModuleId) : Prop where
  seen : ∀ id ∈ m.seen, ∃ bytes, contents id = some bytes ∧ s.resolved id = some (hashOf bytes)
  fresh : ∀ id, id ∉ m.seen → s.resolved id = none
  nodes : s.nodeMap = m.finished.foldr (fun e => insertNode (nodeOf contents e)) []

theorem Tracks.same {s t : Resolving W} {m : Memo ModuleId} (h : Tracks contents s m)
    (hsame : s.Same t) : Tracks contents t m := by
  obtain ⟨hresolved, hnodes⟩ := hsame
  exact ⟨fun id hid => hresolved ▸ h.seen id hid, fun id hid => hresolved ▸ h.fresh id hid,
    hnodes ▸ h.nodes⟩

/-- A module is entered in both maps. -/
theorem Tracks.enter {s : Resolving W} {m : Memo ModuleId} (h : Tracks contents s m)
    {id : ModuleId} {bytes : List UInt8} (hbytes : contents id = some bytes) :
    Tracks contents
      { s with resolved := Function.update s.resolved id (some (hashOf bytes)) }
      { m with seen := id :: m.seen } := by
  refine ⟨fun i hi => ?_, fun i hi => ?_, h.nodes⟩
  · by_cases he : i = id
    · subst he
      exact ⟨bytes, hbytes, by simp⟩
    · obtain ⟨bytes', hbytes', hresolved⟩ := h.seen i ((List.mem_cons.mp hi).resolve_left he)
      exact ⟨bytes', hbytes', by simpa [Function.update_of_ne he] using hresolved⟩
  · obtain ⟨hne, hi⟩ := not_or.mp (mt List.mem_cons.mpr hi)
    simpa [Function.update_of_ne hne] using h.fresh i hi

/-- A module is left with its imports. -/
theorem Tracks.leave {s : Resolving W} {m : Memo ModuleId} (h : Tracks contents s m)
    {id : ModuleId} {bytes : List UInt8} (hbytes : contents id = some bytes)
    (imports : List ModuleId) :
    Tracks contents { s with nodeMap := insertNode ⟨id, hashOf bytes, imports⟩ s.nodeMap }
      { m with finished := (id, imports) :: m.finished } := by
  refine ⟨h.seen, h.fresh, ?_⟩
  rw [List.foldr_cons, ← h.nodes, nodeOf, hbytes]
  rfl

/-- An error of the resolution and a stop of the search. -/
inductive Matches : Halt → Stop ModuleId → Prop
  | cycle (chain : List ModuleId) : Matches (.raised (.cycle chain)) (.cycle chain)
  | tooDeep : Matches (.raised (.depthExceeded maxImportDepth)) .tooDeep
  | bad {e : LinkError} (h : e.isGraphStop = false) : Matches (.raised e) .bad
  | exhausted : Matches .exhausted .exhausted

/-- An error that comes from outside the graph. -/
def Disturbed (env : Surroundings W) (contents : Contents) (e : Halt) : Prop :=
  ¬ Undisturbed env contents ∧ ∃ error : LinkError, e = .raised error ∧ error.isGraphStop = false

/-- The resolution ends as the search does, or is disturbed. -/
def Simulates {α : Type} (env : Surroundings W) (contents : Contents)
    (r : Except Halt α × Resolving W) (r' : Except (Stop ModuleId) (α × Memo ModuleId)) : Prop :=
  match r.1 with
  | .ok a => ∃ m, r' = .ok (a, m) ∧ Tracks contents r.2 m
  | .error e => (∃ stop, r' = .error stop ∧ Matches e stop) ∨ Disturbed env contents e

theorem isGraphStop_normalize {knowsMount : String → Bool} {specifier : String} {e : LinkError}
    (h : normalizeSpecifier knowsMount specifier = .error e) : e.isGraphStop = false := by
  unfold normalizeSpecifier at h
  split at h
  · cases h
    rfl
  · split at h
    · cases h
      rfl
    · split at h <;> cases h
      rfl

theorem isGraphStop_compile {parse : Parse} {id : ModuleId} {bytes : List UInt8} {e : LinkError}
    (h : compileModule parse id bytes = .error e) : e.isGraphStop = false := by
  unfold compileModule at h
  split at h
  · cases h
    rfl
  · split at h <;> cases h
    rfl

/-- A stop of the search that the resolution reports in its first steps. -/
theorem Simulates.error {α : Type} {e : Halt} {t : Resolving W} {stop : Stop ModuleId}
    {r' : Except (Stop ModuleId) (α × Memo ModuleId)} (h : r' = .error stop)
    (hmatches : Matches e stop) : Simulates env contents (.error e, t) r' :=
  .inl ⟨stop, h, hmatches⟩

theorem Simulates.bad {α : Type} {e : LinkError} {t : Resolving W}
    {r' : Except (Stop ModuleId) (α × Memo ModuleId)} (h : r' = .error .bad)
    (he : e.isGraphStop = false) : Simulates env contents (.error (.raised e), t) r' :=
  .error h (.bad he)

theorem resolveImport_simulates (hserves : Serves env.resolver env.revision contents)
    {child : ModuleId → List (String × Nat) → List ModuleId → Search W (List ModuleId)}
    {child' : List (Option ModuleId) → List ModuleId → Memo ModuleId →
      Except (Stop ModuleId) (List ModuleId × Memo ModuleId)}
    (importer : Option ModuleId) {depth : Nat} {active : List ModuleId}
    (hchild : ∀ id specifiers active s m, depth + 1 = active.length → Tracks contents s m →
      Simulates env contents ((child id specifiers active).run s)
        (child' (specifiers.map (importTarget env.resolver)) active m))
    (hdepth : depth = active.length) (specifier : String × Nat) {s : Resolving W}
    {m : Memo ModuleId} (htracks : Tracks contents s m) :
    Simulates env contents ((resolveImport env child importer depth active specifier.1).run s)
      (visit (importsOf env.resolver env.parse contents) maxImportDepth child' active m
        (importTarget env.resolver specifier)) := by
  subst hdepth
  obtain ⟨s₁, hsame₁, hcancel | ⟨hcancel, hquiet⟩⟩ := checkCancelled_run env.request s
  swap
  · rw [resolveImport, Proc.bind_run_error hcancel]
    exact .inr ⟨fun h => hquiet h.1, _, rfl, rfl⟩
  rw [resolveImport, Proc.bind_run_ok hcancel]
  cases hnormal : normalizeSpecifier env.resolver.knowsMount specifier.1 with
  | error e =>
    have htarget : importTarget env.resolver specifier = none := by
      simp [importTarget, hnormal, Except.toOption]
    rw [htarget]
    exact .bad rfl (isGraphStop_normalize hnormal)
  | ok id =>
    have htarget : importTarget env.resolver specifier = some id := by
      simp [importTarget, hnormal, Except.toOption]
    rw [htarget, liftExcept, Proc.bind_run_ok (Proc.pure_run id s₁)]
    by_cases hactive : id ∈ active
    · rw [if_pos hactive]
      exact .error (by simp [visit, hactive]) (.cycle _)
    by_cases hdeep : maxImportDepth ≤ active.length
    · rw [if_neg hactive, if_pos hdeep]
      exact .error (by simp [visit, hactive, hdeep]) .tooDeep
    rw [if_neg hactive, if_neg hdeep]
    have htracks₁ := htracks.same hsame₁
    obtain ⟨s₂, hsame₂, ⟨bytes, hbytes, hfetch⟩ | ⟨e, hfetch, he, hnone⟩⟩ :=
      fetch_run hserves importer id s₁
    · have htracks₂ := htracks₁.same hsame₂
      rw [Proc.bind_run_ok hfetch, Proc.bind_run_ok (Proc.gets_run _ s₂)]
      by_cases hseen : id ∈ m.seen
      · obtain ⟨bytes', hbytes', hresolved⟩ := htracks₂.seen id hseen
        obtain rfl : bytes = bytes' := Option.some.inj (hbytes.symm.trans hbytes')
        simp only [hresolved, ne_eq, not_true_eq_false, if_false]
        exact ⟨m, by simp [visit, hactive, hdeep, hseen], htracks₂⟩
      · simp only [htracks₂.fresh id hseen]
        cases hprogram : compileModule env.parse id bytes with
        | error e =>
          refine .bad ?_ (isGraphStop_compile hprogram)
          simp [visit, hactive, hdeep, hseen, importsOf, moduleProgram, hbytes, hprogram,
            Except.toOption]
        | ok program =>
          have hnext : importsOf env.resolver env.parse contents id
              = some ((importSpecifiers program).map (importTarget env.resolver)) := by
            simp [importsOf, moduleProgram, hbytes, hprogram, Except.toOption]
          have hcall := hchild id (importSpecifiers program) (active ++ [id]) _ _ (by simp)
            (htracks₂.enter hbytes)
          rw [liftExcept, Proc.bind_run_ok (Proc.pure_run program s₂),
            Proc.bind_run_ok (Proc.modify_run _ s₂)]
          rw [visit_enter child' hactive hdeep hseen hnext]
          rcases hrun : (child id (importSpecifiers program) (active ++ [id])).run
              { s₂ with resolved := Function.update s₂.resolved id (some (hashOf bytes)) }
            with ⟨e | imports, t⟩
          · rw [hrun] at hcall
            rw [Proc.bind_run_error hrun]
            rcases hcall with ⟨stop, hstop, hmatches⟩ | hdisturbed
            · exact .error (by rw [hstop]) hmatches
            · exact .inr hdisturbed
          · rw [hrun] at hcall
            obtain ⟨m', hm', htracks'⟩ := hcall
            rw [Proc.bind_run_ok hrun, hm']
            exact ⟨_, rfl, htracks'.leave hbytes imports⟩
    · rw [Proc.bind_run_error hfetch]
      by_cases hdefect : id ∉ m.seen ∧ contents id = none
      · refine .bad ?_ he
        simp [visit, hactive, hdeep, hdefect.1, importsOf, moduleProgram, hdefect.2]
      · refine .inr ⟨fun h => hdefect ⟨fun hseen => ?_, hnone h⟩, e, rfl, he⟩
        obtain ⟨bytes, hbytes, -⟩ := htracks.seen id hseen
        rw [hnone h] at hbytes
        cases hbytes

theorem resolveImports_simulates {one : String → Search W ModuleId}
    {one' : Memo ModuleId → Option ModuleId → Except (Stop ModuleId) (ModuleId × Memo ModuleId)}
    (hone : ∀ specifier s m, Tracks contents s m →
      Simulates env contents ((one specifier.1).run s)
        (one' m (importTarget env.resolver specifier)))
    (specifiers : List (String × Nat)) : ∀ s m, Tracks contents s m →
      Simulates env contents ((resolveImports one specifiers).run s)
        (visits one' m (specifiers.map (importTarget env.resolver))) := by
  induction specifiers with
  | nil => exact fun s m h => ⟨m, rfl, h⟩
  | cons specifier rest ih =>
    intro s m h
    have hhead := hone specifier s m h
    rw [List.map_cons, visits, resolveImports]
    rcases hrun : (one specifier.1).run s with ⟨e | id, t⟩
    · rw [hrun] at hhead
      rw [Proc.bind_run_error hrun]
      rcases hhead with ⟨stop, hstop, hmatches⟩ | hdisturbed
      · exact .error (by rw [hstop]) hmatches
      · exact .inr hdisturbed
    · rw [hrun] at hhead
      obtain ⟨m', hm', htracks'⟩ := hhead
      have htail := ih t m' htracks'
      rw [Proc.bind_run_ok hrun, hm']
      rcases hrun' : (resolveImports one rest).run t with ⟨e | ids, u⟩
      · rw [hrun'] at htail
        rw [Proc.bind_run_error hrun']
        rcases htail with ⟨stop, hstop, hmatches⟩ | hdisturbed
        · exact .error (by simp only [hstop]) hmatches
        · exact .inr hdisturbed
      · rw [hrun'] at htail
        obtain ⟨m'', hm'', htracks''⟩ := htail
        rw [Proc.bind_run_ok hrun']
        exact ⟨m'', by simp only [hm''], htracks''⟩

/-- The resolution from the end of a path is the search from there. -/
theorem resolveModuleImports_simulates (hserves : Serves env.resolver env.revision contents)
    (fuel : Nat) : ∀ importer specifiers depth active s m, depth = active.length →
      Tracks contents s m →
      Simulates env contents
        ((resolveModuleImports env fuel importer specifiers depth active).run s)
        (searchFrom (importsOf env.resolver env.parse contents) maxImportDepth fuel
          (specifiers.map (importTarget env.resolver)) active m) := by
  induction fuel with
  | zero => exact fun _ _ _ _ s m _ _ => .error rfl .exhausted
  | succ fuel ih =>
    intro importer specifiers depth active s m hdepth htracks
    rw [resolveModuleImports, searchFrom]
    refine resolveImports_simulates (fun specifier s m htracks => ?_) specifiers s m htracks
    refine resolveImport_simulates hserves importer (fun id specifiers active s m => ?_) hdepth
      specifier htracks
    exact ih (some id) specifiers (depth + 1) active s m

end Simulation

/-! ## The nodes -/

/-- The map of the finished modules holds one node for each. -/
theorem foldr_insertNode {contents : Contents} {finished : List (ModuleId × List ModuleId)}
    (h : Topological finished) :
    finished.foldr (fun e => insertNode (nodeOf contents e)) [] = finished.map (nodeOf contents) := by
  induction h with
  | nil => rfl
  | @cons id ids finished _ hid _ ih =>
    rw [List.foldr_cons, ih, List.map_cons, insertNode, List.filter_eq_self.mpr]
    intro n hn
    obtain ⟨e, he, rfl⟩ := List.mem_map.mp hn
    have hne : e.1 ≠ id := fun heq => hid (heq ▸ List.mem_map_of_mem he)
    exact decide_eq_true hne

theorem sortNodes_perm (nodes : List ImportNode) : (sortNodes nodes).Perm nodes :=
  List.mergeSort_perm nodes _

/-- The nodes of distinct modules are sorted strictly. -/
theorem sortNodes_sorted {nodes : List ImportNode}
    (h : (nodes.map ImportNode.moduleId).Nodup) :
    (sortNodes nodes).Pairwise fun a b => utf8Bytes a.moduleId.name < utf8Bytes b.moduleId.name := by
  have hle : (sortNodes nodes).Pairwise fun a b =>
      utf8Bytes a.moduleId.name ≤ utf8Bytes b.moduleId.name := by
    refine (List.pairwise_mergeSort (fun a b c hab hbc => ?_) (fun a b => ?_) nodes).imp fun h => ?_
    · exact decide_eq_true (List.le_trans (of_decide_eq_true hab) (of_decide_eq_true hbc))
    · simpa using List.le_total (utf8Bytes a.moduleId.name) (utf8Bytes b.moduleId.name)
    · exact of_decide_eq_true h
  have hne : (sortNodes nodes).Pairwise fun a b => a.moduleId ≠ b.moduleId := by
    refine List.pairwise_map.mp ?_
    exact (((sortNodes_perm nodes).map ImportNode.moduleId).nodup_iff).mpr h
  refine (hle.and hne).imp fun ⟨hle, hne⟩ => Std.lt_of_le_of_ne hle fun heq => ?_
  exact hne (ModuleId.ext_name (SetIdLemmas.utf8Bytes_injective heq))

/-! ## The result of `link_inner` -/

/-- The modules that the root names, in source order. -/
def rootTargets (resolver : ModuleResolver W) (script : CompiledScript) : List (Option ModuleId) :=
  script.importSpecifiers.map (importTarget resolver)

/-- The script was compiled by the engine, with its revision and backend. -/
structure Admitted (engine : Engine) (script : CompiledScript) : Prop where
  engineId : script.engineId = engine.id
  languageRevision : script.languageRevision = engine.languageRevision
  backend : script.backend = engine.backend

/-- The result of `resolve_import_graph`, by the search. -/
theorem resolveImportGraph_simulates (env : Surroundings W) {contents : Contents}
    (hserves : Serves env.resolver env.revision contents) (fuel : Nat) (script : CompiledScript)
    (world : W) :
    match (resolveImportGraph env fuel script world).1 with
    | .ok (rootImports, nodes) => ∃ finished,
        search (importsOf env.resolver env.parse contents) maxImportDepth fuel
          (rootTargets env.resolver script) = .ok (rootImports, finished) ∧
        nodes = sortNodes (finished.foldr (fun e => insertNode (nodeOf contents e)) [])
    | .error e => (∃ stop,
        search (importsOf env.resolver env.parse contents) maxImportDepth fuel
          (rootTargets env.resolver script) = .error stop ∧ Matches e stop) ∨
        Disturbed env contents e := by
  have hstart : Tracks contents (⟨world, 0, fun _ => none, []⟩ : Resolving W) ⟨[], []⟩ :=
    ⟨by simp, fun _ _ => rfl, rfl⟩
  have hsimulates := resolveModuleImports_simulates hserves fuel none script.importSpecifiers 0 []
    _ _ rfl hstart
  unfold resolveImportGraph search
  rcases hrun : (resolveModuleImports env fuel none script.importSpecifiers 0 []).run
    ⟨world, 0, fun _ => none, []⟩ with ⟨e | rootImports, t⟩
  · rw [hrun] at hsimulates
    rcases hsimulates with ⟨stop, hstop, hmatches⟩ | hdisturbed
    · exact .inl ⟨stop, by rw [rootTargets, hstop], hmatches⟩
    · exact .inr hdisturbed
  · rw [hrun] at hsimulates
    obtain ⟨m, hm, htracks⟩ := hsimulates
    exact ⟨m.finished, by rw [rootTargets, hm], by rw [htracks.nodes]⟩

theorem resolveImportGraph_nil (env : Surroundings W) (fuel : Nat) {script : CompiledScript}
    (h : script.importSpecifiers = []) (world : W) :
    (resolveImportGraph env (fuel + 1) script world).1 = .ok ([], []) := by
  simp [resolveImportGraph, resolveModuleImports, resolveImports, h, sortNodes]

/-- `link_inner` ends before the resolver is asked, or as `resolve_import_graph` does. -/
theorem linkInner_run (parse : Parse) (fuel : Nat) (engine : Engine) (script : CompiledScript)
    {request : LinkRequest W} {resolver : ModuleResolver W}
    (h : request.moduleResolver = some resolver) (world : W) :
    (∃ e, (linkInner parse (fuel + 1) engine script request world).1 = .error (.raised e) ∧
      e.isGraphStop = false ∧ (Admitted engine script → ¬ request.Quiet)) ∨
    Admitted engine script ∧ ∃ world',
      (linkInner parse (fuel + 1) engine script request world).1
        = (resolveImportGraph ⟨resolver, request, script.languageRevision, parse⟩ (fuel + 1) script
            world').1.map fun r => linkedScript script r.1 r.2 := by
  unfold linkInner
  split
  · rename_i hne
    exact .inl ⟨.engineMismatch, rfl, rfl, fun h => absurd h.engineId hne⟩
  · rename_i hid
    split
    · rename_i hne
      exact .inl ⟨.revisionMismatch, rfl, rfl, fun h => absurd h.languageRevision hne⟩
    · rename_i hrevision
      split
      · rename_i hne
        exact .inl ⟨.backendMismatch, rfl, rfl, fun h => absurd h.backend hne⟩
      · rename_i hbackend
        have hadmitted : Admitted engine script :=
          ⟨not_not.mp hid, not_not.mp hrevision, not_not.mp hbackend⟩
        simp only
        split
        · rename_i hcancelled
          refine .inl ⟨.cancelled, rfl, rfl, fun _ hquiet => ?_⟩
          rw [hquiet world] at hcancelled
          cases hcancelled
        · refine .inr ⟨hadmitted, (request.isCancelled world).2, ?_⟩
          rw [h]
          simp only
          split
          · rename_i hnone
            have hnil : script.importSpecifiers = [] := by
              simpa [script.hasImports_eq] using hnone
            rw [resolveImportGraph_nil _ _ hnil]
            rfl
          · split
            · rename_i hrun
              rw [hrun]
              rfl
            · rename_i hrun
              rw [hrun]
              rfl

/-- What the graph of a linked script says about the import statements. -/
structure GraphOf (resolver : ModuleResolver W) (parse : Parse) (contents : Contents)
    (script : CompiledScript) (graph : ImportGraph) : Prop where
  root : graph.root = script.sourceHash
  rootImports : rootTargets resolver script = graph.rootImports.map some
  sorted : graph.nodes.Pairwise fun a b =>
    utf8Bytes a.moduleId.name < utf8Bytes b.moduleId.name
  nodes : ∀ id, id ∈ graph.nodes.map ImportNode.moduleId ↔
    Reachable (importsOf resolver parse contents) (rootTargets resolver script) id
  imports : ∀ n ∈ graph.nodes,
    importsOf resolver parse contents n.moduleId = some (n.imports.map some)
  sources : ∀ n ∈ graph.nodes, ∃ bytes,
    contents n.moduleId = some bytes ∧ n.sourceHash = hashOf bytes
  acyclic : ∀ id, Reachable (importsOf resolver parse contents) (rootTargets resolver script) id →
    ¬ Relation.TransGen (Edge (importsOf resolver parse contents)) id id

theorem contents_of_importsOf {resolver : ModuleResolver W} {parse : Parse} {contents : Contents}
    {id : ModuleId} {targets : List (Option ModuleId)}
    (h : importsOf resolver parse contents id = some targets) :
    ∃ bytes, contents id = some bytes := by
  cases hbytes : contents id with
  | none => simp [importsOf, moduleProgram, hbytes] at h
  | some bytes => exact ⟨bytes, rfl⟩

/-- The linked script of a search that returned. -/
theorem graphOf_search {resolver : ModuleResolver W} {parse : Parse} {contents : Contents}
    {script : CompiledScript} {fuel : Nat} (hfuel : maxImportDepth < fuel)
    {rootImports : List ModuleId} {finished : List (ModuleId × List ModuleId)}
    (h : search (importsOf resolver parse contents) maxImportDepth fuel
      (rootTargets resolver script) = .ok (rootImports, finished)) :
    GraphOf resolver parse contents script (linkedScript script rootImports
      (sortNodes (finished.foldr (fun e => insertNode (nodeOf contents e)) []))).importGraph := by
  obtain ⟨hroots, htopological, hexact, hmem⟩ := search_ok hfuel h
  rw [foldr_insertNode htopological]
  have hids : (finished.map (nodeOf contents)).map ImportNode.moduleId
      = finished.map Prod.fst := by
    rw [List.map_map]
    rfl
  have hnode : ∀ n ∈ sortNodes (finished.map (nodeOf contents)), ∃ e ∈ finished,
      nodeOf contents e = n := fun n hn =>
    List.mem_map.mp ((sortNodes_perm _).mem_iff.mp hn)
  refine ⟨rfl, hroots, ?_, fun id => ?_, fun n hn => ?_, fun n hn => ?_, ?_⟩
  · exact sortNodes_sorted (hids ▸ htopological.nodup)
  · rw [← hmem id, ← hids]
    exact ((sortNodes_perm _).map ImportNode.moduleId).mem_iff
  · obtain ⟨e, he, rfl⟩ := hnode n hn
    exact hexact e he
  · obtain ⟨e, he, rfl⟩ := hnode n hn
    obtain ⟨bytes, hbytes⟩ := contents_of_importsOf (hexact e he)
    exact ⟨bytes, hbytes, by simp [nodeOf, hbytes]⟩
  · exact fun id hid => search_acyclic hfuel h hid

section Results

variable {parse : Parse} {fuel : Nat} {engine : Engine} {script : CompiledScript}
  {request : LinkRequest W} {resolver : ModuleResolver W} {contents : Contents} {world : W}

/-- A link that returns has searched the graph. -/
theorem linkInner_ok (hresolver : request.moduleResolver = some resolver)
    (hserves : Serves resolver script.languageRevision contents) {linked : LinkedScript}
    (h : (linkInner parse (fuel + 1) engine script request world).1 = .ok linked) :
    Admitted engine script ∧ ∃ rootImports finished,
      search (importsOf resolver parse contents) maxImportDepth (fuel + 1)
        (rootTargets resolver script) = .ok (rootImports, finished) ∧
      linked = linkedScript script rootImports
        (sortNodes (finished.foldr (fun e => insertNode (nodeOf contents e)) [])) := by
  rcases linkInner_run parse fuel engine script hresolver world with
    ⟨e, he, -⟩ | ⟨hadmitted, world', hrun⟩
  · rw [he] at h
    cases h
  · refine ⟨hadmitted, ?_⟩
    have hsimulates := resolveImportGraph_simulates
      ⟨resolver, request, script.languageRevision, parse⟩ hserves (fuel + 1) script world'
    rw [hrun] at h
    rcases hgraph : (resolveImportGraph ⟨resolver, request, script.languageRevision, parse⟩
      (fuel + 1) script world').1 with e | ⟨rootImports, nodes⟩
    · rw [hgraph] at h
      cases h
    · rw [hgraph] at h hsimulates
      cases h
      obtain ⟨finished, hsearch, rfl⟩ := hsimulates
      exact ⟨rootImports, finished, hsearch, rfl⟩

/-- A link that fails: the search stopped, or the failure came from outside the graph. -/
theorem linkInner_error (hresolver : request.moduleResolver = some resolver)
    (hserves : Serves resolver script.languageRevision contents) {e : Halt}
    (h : (linkInner parse (fuel + 1) engine script request world).1 = .error e) :
    (∃ stop, search (importsOf resolver parse contents) maxImportDepth (fuel + 1)
        (rootTargets resolver script) = .error stop ∧ Matches e stop) ∨
      (∃ error : LinkError, e = .raised error ∧ error.isGraphStop = false) ∧
        (Admitted engine script → request.Quiet →
          ¬ Obliging resolver script.languageRevision contents) := by
  rcases linkInner_run parse fuel engine script hresolver world with
    ⟨e', he', hstop, hquiet⟩ | ⟨hadmitted, world', hrun⟩
  · rw [he'] at h
    cases h
    exact .inr ⟨⟨e', rfl, hstop⟩, fun hadmitted h => absurd h (hquiet hadmitted)⟩
  · have hsimulates := resolveImportGraph_simulates
      ⟨resolver, request, script.languageRevision, parse⟩ hserves (fuel + 1) script world'
    rw [hrun] at h
    rcases hgraph : (resolveImportGraph ⟨resolver, request, script.languageRevision, parse⟩
      (fuel + 1) script world').1 with e' | ⟨rootImports, nodes⟩
    · rw [hgraph] at h hsimulates
      cases h
      rcases hsimulates with hstop | ⟨hdisturbed, herror⟩
      · exact .inl hstop
      · exact .inr ⟨herror, fun _ hquiet hobliging => hdisturbed ⟨hquiet, hobliging⟩⟩
    · rw [hgraph] at h
      cases h

end Results

/-! ## Another order of the imports -/

/-- Two programs that import the same specifiers as often, in any order. -/
def SameImports (p p' : Program) : Prop :=
  ((importSpecifiers p).map Prod.fst).Perm ((importSpecifiers p').map Prod.fst)

/-- The second script and the modules behind the second resolver list the imports of the first in
another order. -/
structure Relisted {W' : Type} (parse : Parse) (resolver : ModuleResolver W) (contents : Contents)
    (script : CompiledScript) (resolver' : ModuleResolver W') (contents' : Contents)
    (script' : CompiledScript) : Prop where
  engineId : script'.engineId = script.engineId
  languageRevision : script'.languageRevision = script.languageRevision
  backend : script'.backend = script.backend
  knowsMount : resolver'.knowsMount = resolver.knowsMount
  root : (script.importSpecifiers.map Prod.fst).Perm (script'.importSpecifiers.map Prod.fst)
  modules : ∀ id,
    Option.Rel SameImports (moduleProgram parse contents id) (moduleProgram parse contents' id)

theorem map_importTarget_perm {W' : Type} {resolver : ModuleResolver W}
    {resolver' : ModuleResolver W'} (hmount : resolver'.knowsMount = resolver.knowsMount)
    {l l' : List (String × Nat)} (h : (l.map Prod.fst).Perm (l'.map Prod.fst)) :
    (l.map (importTarget resolver)).Perm (l'.map (importTarget resolver')) := by
  have htarget : importTarget resolver' = importTarget resolver := by
    funext specifier
    rw [importTarget, importTarget, hmount]
  have hperm := h.map fun specifier =>
    (normalizeSpecifier resolver.knowsMount specifier).toOption
  rw [List.map_map, List.map_map] at hperm
  rw [htarget]
  exact hperm

theorem Relisted.reordered {W' : Type} {parse : Parse} {resolver : ModuleResolver W}
    {contents : Contents} {script script' : CompiledScript} {resolver' : ModuleResolver W'}
    {contents' : Contents}
    (h : Relisted parse resolver contents script resolver' contents' script') :
    Reordered (importsOf resolver parse contents) (importsOf resolver' parse contents') := by
  intro id
  have hmodule := h.modules id
  unfold importsOf
  generalize moduleProgram parse contents id = o at hmodule ⊢
  generalize moduleProgram parse contents' id = o' at hmodule ⊢
  cases hmodule with
  | some himports => exact .some (map_importTarget_perm h.knowsMount himports)
  | none => exact .none

/-- With a resolver that answers a specifier with the same bytes every time:
* the graph of a linked script has one node for each module that the import statements reach from
  the root, in byte order, each with its imports in source order, and no cycle;
* a reported cycle is one of import statements that the root reaches, with its first module again
  at the end;
* with the imports of the root and the modules in another order, and a resolver that serves them,
  a link that is not cancelled returns too, unless it reports the depth limit and an import path
  from the root is longer than that. -/
theorem import_resolution_sound (parse : Parse) {fuel : Nat} (hfuel : maxImportDepth < fuel)
    (engine : Engine) (script : CompiledScript) (request : LinkRequest W)
    (resolver : ModuleResolver W) (hresolver : request.moduleResolver = some resolver)
    (contents : Contents) (hserves : Serves resolver script.languageRevision contents) (world : W) :
    (∀ linked, (linkInner parse fuel engine script request world).1 = .ok linked →
      GraphOf resolver parse contents script linked.importGraph) ∧
    (∀ chain, (linkInner parse fuel engine script request world).1 = .error (.raised (.cycle chain)) →
      Cycle (importsOf resolver parse contents) (rootTargets resolver script) chain) ∧
    (linkInner parse fuel engine script request world).1 ≠ .error .exhausted ∧
    ∀ {W' : Type} (script' : CompiledScript) (request' : LinkRequest W')
      (resolver' : ModuleResolver W') (contents' : Contents) (world' : W'),
      request'.moduleResolver = some resolver' → request'.Quiet →
      Serves resolver' script'.languageRevision contents' →
      Obliging resolver' script'.languageRevision contents' →
      Relisted parse resolver contents script resolver' contents' script' →
      ∀ linked, (linkInner parse fuel engine script request world).1 = .ok linked →
        (∃ linked', (linkInner parse fuel engine script' request' world').1 = .ok linked') ∨
        (linkInner parse fuel engine script' request' world').1
            = .error (.raised (.depthExceeded maxImportDepth)) ∧
          ∃ path, maxImportDepth < path.length ∧
            Path (importsOf resolver' parse contents') (rootTargets resolver' script') path := by
  obtain ⟨fuel, rfl⟩ : ∃ n, fuel = n + 1 := ⟨fuel - 1, by omega⟩
  refine ⟨fun linked h => ?_, fun chain h => ?_, fun h => ?_, ?_⟩
  · obtain ⟨-, rootImports, finished, hsearch, rfl⟩ := linkInner_ok hresolver hserves h
    exact graphOf_search hfuel hsearch
  · rcases linkInner_error hresolver hserves h with
      ⟨stop, hsearch, hmatches⟩ | ⟨⟨error, herror, hstop⟩, -⟩
    · cases hmatches with
      | cycle => exact search_error hfuel hsearch
      | bad hbad => cases hbad
    · cases herror
      cases hstop
  · rcases linkInner_error hresolver hserves h with
      ⟨stop, hsearch, hmatches⟩ | ⟨⟨error, herror, -⟩, -⟩
    · cases hmatches
      exact search_error hfuel hsearch
    · cases herror
  · intro W' script' request' resolver' contents' world' hresolver' hquiet hserves' hobliging
      hrelisted linked h
    obtain ⟨hadmitted, rootImports, finished, hsearch, -⟩ := linkInner_ok hresolver hserves h
    have hadmitted' : Admitted engine script' :=
      ⟨hrelisted.engineId.trans hadmitted.engineId,
        hrelisted.languageRevision.trans hadmitted.languageRevision,
        hrelisted.backend.trans hadmitted.backend⟩
    rcases hlink : (linkInner parse (fuel + 1) engine script' request' world').1 with e | linked'
    · refine .inr ?_
      rcases linkInner_error hresolver' hserves' hlink with
        ⟨stop, hsearch', hmatches⟩ | ⟨-, hundisturbed⟩
      · obtain ⟨rfl, hpath⟩ := search_reordered hrelisted.reordered
          (map_importTarget_perm hrelisted.knowsMount hrelisted.root) hfuel hfuel hsearch hsearch'
        cases hmatches
        exact ⟨rfl, hpath⟩
      · exact absurd hobliging (hundisturbed hadmitted' hquiet)
    · exact .inl ⟨linked', rfl⟩

/-! ## Two orders, and only one accepted -/

theorem fromUtf8_utf8Bytes (s : String) : fromUtf8 (utf8Bytes s) = some s := by
  exact dif_pos s.isValidUTF8

namespace ChainExample

/-- The name of a module: two letters. -/
def name (i : Nat) : String := String.ofList [Char.ofNat (97 + i / 16), Char.ofNat (97 + i % 16)]

theorem letter_plain : ∀ k : Fin 16, Char.ofNat (97 + k.val) ∉ ['/', '\\', ':', '\x00', '.', '@'] := by
  decide

theorem name_letters (i : Fin 129) (c : Char) (hc : c ∈ (name i).toList) :
    c ∉ ['/', '\\', ':', '\x00', '.', '@'] := by
  have hi : i.val / 16 < 16 := by omega
  have hmod : i.val % 16 < 16 := by omega
  rw [name, String.toList_ofList] at hc
  rcases List.mem_pair.mp hc with rfl | rfl
  · exact letter_plain ⟨_, hi⟩
  · exact letter_plain ⟨_, hmod⟩

theorem name_component (i : Fin 129) : IsScriptComponent (name i) := by
  have hletters := name_letters i
  have hlist : (name i).toList = [Char.ofNat (97 + i / 16), Char.ofNat (97 + i % 16)] :=
    String.toList_ofList
  refine ⟨by simp [hlist], by simp [hlist], fun h => ?_, fun h => ?_, fun h => ?_, fun h => ?_,
    fun h => ?_⟩
  · exact hletters '.' (by simp [h]) (by simp)
  all_goals exact hletters _ h (by simp)

/-- The target that the name of a module spells. -/
def target (i : Fin 129) : FilesystemTarget :=
  ⟨defaultMount, [name i], by simpa using (name_component i).isComponent⟩

theorem parse_name (i : Fin 129) : FilesystemTarget.parse (name i) = .ok (target i) := by
  have hspells := Spells.unqualified (List.cons_ne_nil (name i) [])
    (by simpa using name_component i) fun c hc h => by
      obtain rfl : name i = c := by simpa using hc
      exact name_letters i '@' (List.mem_of_mem_head? (by simp [h])) (by simp)
  exact parse_ok_iff.mpr (by simpa [target] using hspells)

theorem label_target (i : Fin 129) :
    canonicalResourceLabel (target i) = "@default/" ++ name i := by
  have hdefault : "@" ++ "default" ++ "/" = "@default/" := by decide +kernel
  rw [← hdefault]
  rfl

theorem name_valid (i : Fin 129) :
    validateIdentifier "module_id" ("@default/" ++ name i) 1024 = .ok () := by
  have hsize : (name i).utf8ByteSize ≤ 8 := by
    have h1 := (Char.ofNat (97 + i / 16)).utf8Size_le_four
    have h2 := (Char.ofNat (97 + i % 16)).utf8Size_le_four
    have hsize : (name i).utf8ByteSize
        = (Char.ofNat (97 + i / 16)).utf8Size + (Char.ofNat (97 + i % 16)).utf8Size := by
      simp [name]
    omega
  have hnul : '\x00' ∉ "@default/".toList := by decide +kernel
  have hsize' : "@default/".utf8ByteSize = 9 := by decide +kernel
  rw [validateIdentifier, if_neg, if_neg, if_neg]
  · rw [String.utf8ByteSize_append]
    omega
  · rw [String.toList_append, List.mem_append]
    exact not_or.mpr ⟨hnul, fun h => name_letters i _ h (by simp)⟩
  · intro h
    have hlength := congrArg String.utf8ByteSize h
    rw [String.utf8ByteSize_append, hsize'] at hlength
    simp at hlength

def id (i : Fin 129) : ModuleId := ⟨"@default/" ++ name i, name_valid i⟩

/-- The number behind a name. -/
def number (a b : Char) : Nat := (a.toNat - 97) * 16 + (b.toNat - 97)

theorem number_letters : ∀ i : Fin 129,
    number (Char.ofNat (97 + i / 16)) (Char.ofNat (97 + i % 16)) = i.val := by decide

/-- The letters of a module id. -/
theorem drop_id (i : Fin 129) : (id i).name.toList.drop 9
    = [Char.ofNat (97 + i / 16), Char.ofNat (97 + i % 16)] := by
  have hprefix : "@default/".toList.length = 9 := by decide +kernel
  rw [id, String.toList_append, List.drop_append_of_le_length hprefix.ge, ← hprefix,
    List.drop_length, name, String.toList_ofList]
  rfl

theorem id_injective : Function.Injective id := by
  intro i j h
  have hletters := congrArg (fun m : ModuleId => m.name.toList.drop 9) h
  simp only [drop_id, List.cons.injEq, and_true] at hletters
  exact Fin.ext (by rw [← number_letters i, ← number_letters j, hletters.1, hletters.2])

/-- A module holds its own name, which stands for an import of the next one. Module 0 holds `<` or
`>` and imports 127 and 1, in one order or the other. -/
def parse : Parse := fun text =>
  match text.toList with
  | ['<'] => .ok [.«import» (name 127) 1, .«import» (name 1) 2]
  | ['>'] => .ok [.«import» (name 1) 1, .«import» (name 127) 2]
  | [a, b] => .ok (if number a b = 128 then [] else [.«import» (name (number a b + 1)) 1])
  | _ => .error []

/-- The bytes of the modules from 1 on. -/
def ownName : Contents := fun i =>
  match i.name.toList.drop 9 with
  | [a, b] => some (utf8Bytes (String.ofList [a, b]))
  | _ => none

def contents (root : String) : Contents := fun i =>
  if i = id 0 then some (utf8Bytes root) else ownName i

def resolver (root : String) : ModuleResolver Unit where
  resolve _ request w :=
    match ModuleId.new request.specifier with
    | .error _ => (.error .directoryReadFailed, w)
    | .ok i =>
      match contents root i with
      | none => (.error .directoryReadFailed, w)
      | some bytes => (.ok ⟨i, .bytes bytes .eof, .public⟩, w)
  knowsMount _ := true

def request (root : String) : LinkRequest Unit := ⟨some (resolver root), fun w => (false, w)⟩

def engine : Engine := ⟨0, .v0_21, .treeWalk⟩

def script : CompiledScript := ⟨0, hashOf [], .v0_21, .treeWalk, true, [(name 0, 1)], rfl⟩

/-- The chain from 0 to 128, with a second way from 0. -/
def graph (first : List (Fin 129)) : Graph (Fin 129) := fun i =>
  some ((if i = 0 then first else if h : i.val + 1 < 129 then [⟨i.val + 1, h⟩] else []).map some)

theorem resolve_eq (root : String) (callId : Nat) (importer : Option ModuleId) (i : ModuleId)
    (revision : Audit.LanguageRevision) (w : Unit) :
    (resolver root).resolve callId ⟨importer, i.name, revision⟩ w =
      match contents root i with
      | none => (.error .directoryReadFailed, w)
      | some bytes => (.ok ⟨i, .bytes bytes .eof, .public⟩, w) := by
  simp only [resolver, ModuleId.new_name]

theorem serves (root : String) (revision : Audit.LanguageRevision) :
    Serves (resolver root) revision (contents root) := by
  intro callId importer i w m w' bytes hresolve hcontent
  rw [resolve_eq] at hresolve
  split at hresolve
  · cases hresolve
  · rename_i bytes' hbytes
    cases hresolve
    rw [hbytes, ← hcontent]
    simp [ModuleSource.content]

theorem obliging {root : String} (hroot : root.utf8ByteSize ≤ 8)
    (revision : Audit.LanguageRevision) : Obliging (resolver root) revision (contents root) := by
  intro callId importer i w bytes hbytes
  have hshort : bytes.length ≤ 8 := by
    unfold contents at hbytes
    split at hbytes
    · cases hbytes
      rwa [SetIdLemmas.length_utf8Bytes]
    · unfold ownName at hbytes
      split at hbytes
      · rename_i a b _
        cases hbytes
        have hsize : (String.ofList [a, b]).utf8ByteSize = a.utf8Size + b.utf8Size := by simp
        have ha := a.utf8Size_le_four
        have hb := b.utf8Size_le_four
        rw [SetIdLemmas.length_utf8Bytes, hsize]
        omega
      · cases hbytes
  refine ⟨⟨i, .bytes bytes .eof, .public⟩, w, ?_, rfl, ?_, ?_, trivial⟩
  · rw [resolve_eq, hbytes]
  · simp [ModuleSource.content]
  · exact le_trans hshort (by decide)

theorem importTarget_name (root : String) (i : Fin 129) (line : Nat) :
    importTarget (resolver root) (name i, line) = some (id i) := by
  have hnormal : normalizeSpecifier (resolver root).knowsMount (name i) = .ok (id i) :=
    normalizeSpecifier_ok_iff.mpr ⟨target i, parse_name i, rfl, (label_target i).symm⟩
  rw [importTarget, hnormal]
  rfl

theorem moduleProgram_rest (i : Fin 129) : moduleProgram parse ownName (id i)
    = some (if i.val = 128 then [] else [.«import» (name (i.val + 1)) 1]) := by
  have hbytes : ownName (id i) = some (utf8Bytes (name i)) := by
    rw [ownName, drop_id]
    rfl
  have hparse : parse (name i)
      = .ok (if i.val = 128 then [] else [.«import» (name (i.val + 1)) 1]) := by
    rw [parse, name, String.toList_ofList]
    simp only [number_letters]
  simp [moduleProgram, hbytes, compileModule, fromUtf8_utf8Bytes, hparse, Except.toOption]

theorem shows_rest (i : Fin 129) (hi : i ≠ 0) : importsOf (resolver "") parse ownName (id i)
    = (graph [] i).map fun targets => targets.map (Option.map id) := by
  rw [importsOf, moduleProgram_rest]
  by_cases hlast : i.val = 128
  · simp [graph, hi, hlast, importSpecifiers]
  · have hnext : i.val + 1 < 129 := by omega
    have htarget := importTarget_name "" ⟨i.val + 1, hnext⟩ 1
    simpa [graph, hi, hlast, hnext, importSpecifiers] using htarget

/-- The modules of an order. -/
theorem shows_graph {root : String} {first : List (Fin 129)}
    (hfirst : importsOf (resolver root) parse (contents root) (id 0)
      = some (first.map fun i => some (id i))) :
    Shows id (graph first) (importsOf (resolver root) parse (contents root)) := by
  intro i
  by_cases hi : i = 0
  · subst hi
    rw [hfirst]
    simp [graph]
  · have hcontents : contents root (id i) = ownName (id i) :=
      if_neg fun h => hi (id_injective h)
    have hrest := shows_rest i hi
    simp only [graph, if_neg hi] at hrest ⊢
    rw [← hrest, importsOf, importsOf, moduleProgram, moduleProgram, hcontents]
    rfl

theorem moduleProgram_zero (root : String) {program : Program} (hparse : parse root = .ok program) :
    moduleProgram parse (contents root) (id 0) = some program := by
  have hcontents : contents root (id 0) = some (utf8Bytes root) := if_pos rfl
  simp [moduleProgram, hcontents, compileModule, fromUtf8_utf8Bytes, hparse, Except.toOption]

theorem shows_first : Shows id (graph [127, 1]) (importsOf (resolver "<") parse (contents "<")) := by
  refine shows_graph ?_
  rw [importsOf, moduleProgram_zero "<" rfl]
  simpa [importSpecifiers] using ⟨importTarget_name "<" 127 1, importTarget_name "<" 1 2⟩

theorem shows_last : Shows id (graph [1, 127]) (importsOf (resolver ">") parse (contents ">")) := by
  refine shows_graph ?_
  rw [importsOf, moduleProgram_zero ">" rfl]
  simpa [importSpecifiers] using ⟨importTarget_name ">" 1 1, importTarget_name ">" 127 2⟩

theorem rootTargets_eq (root : String) :
    rootTargets (resolver root) script = [some 0].map (Option.map id) := by
  change [importTarget (resolver "") (name 0, 1)] = _
  rw [show importTarget (resolver "") (name 0, 1) = some (id 0) from importTarget_name "" 0 1]
  rfl

theorem relisted : Relisted parse (resolver "<") (contents "<") script (resolver ">")
    (contents ">") script := by
  refine ⟨rfl, rfl, rfl, rfl, .refl _, fun i => ?_⟩
  by_cases hi : i = id 0
  · subst hi
    rw [moduleProgram_zero "<" rfl, moduleProgram_zero ">" rfl]
    exact .some (List.Perm.swap ..)
  · have hsame : moduleProgram parse (contents ">") i = moduleProgram parse (contents "<") i := by
      simp only [moduleProgram, contents, if_neg hi]
    rw [hsame]
    cases moduleProgram parse (contents "<") i with
    | none => exact .none
    | some program => exact .some (.refl _)

/-- With the search that returned, the link returns too. -/
theorem links {root : String} (hroot : root.utf8ByteSize ≤ 8) {first : List (Fin 129)}
    (hshows : Shows id (graph first) (importsOf (resolver root) parse (contents root)))
    (hsearch : (search (graph first) maxImportDepth 129 [some 0]).isOk = true) :
    ∃ linked, (linkInner parse 129 engine script (request root) ()).1 = .ok linked := by
  rcases hlink : (linkInner parse 129 engine script (request root) ()).1 with e | linked
  · exfalso
    rcases linkInner_error rfl (serves root _) hlink with ⟨stop, hstop, -⟩ | ⟨-, hundisturbed⟩
    · rw [rootTargets_eq, search_renamed id_injective hshows] at hstop
      split at hstop
      · rename_i hsmall
        rw [hsmall] at hsearch
        cases hsearch
      · cases hstop
    · exact hundisturbed ⟨rfl, rfl, rfl⟩ (fun _ => rfl) (obliging hroot _)
  · exact ⟨linked, rfl⟩

/-- With the search that went too deep, the link reports the depth. -/
theorem refuses {root : String} (hroot : root.utf8ByteSize ≤ 8) {first : List (Fin 129)}
    (hshows : Shows id (graph first) (importsOf (resolver root) parse (contents root)))
    (hsearch : search (graph first) maxImportDepth 129 [some 0] = .error .tooDeep) :
    (linkInner parse 129 engine script (request root) ()).1
      = .error (.raised (.depthExceeded maxImportDepth)) := by
  have hlarge : search (importsOf (resolver root) parse (contents root)) maxImportDepth 129
      (rootTargets (resolver root) script) = .error .tooDeep := by
    rw [rootTargets_eq, search_renamed id_injective hshows, hsearch]
    rfl
  rcases hlink : (linkInner parse 129 engine script (request root) ()).1 with e | linked
  · rcases linkInner_error rfl (serves root _) hlink with
      ⟨stop, hstop, hmatches⟩ | ⟨-, hundisturbed⟩
    · rw [hlarge] at hstop
      cases hstop
      cases hmatches
      rfl
    · exact absurd (obliging hroot _) (hundisturbed ⟨rfl, rfl, rfl⟩ fun _ => rfl)
  · obtain ⟨-, rootImports, finished, hok, -⟩ := linkInner_ok rfl (serves root _) hlink
    rw [hlarge] at hok
    cases hok

theorem search_first :
    (search (graph [127, 1]) maxImportDepth 129 [some 0]).isOk = true := by decide +kernel

theorem search_last :
    search (graph [1, 127]) maxImportDepth 129 [some 0] = .error .tooDeep := by decide +kernel

end ChainExample

open ChainExample in
/-- Module 0 imports 127 and 1, and each later module the next, up to 128. With 127 first, 128 is
met at depth 2; with 1 first, it is met at depth 128. -/
theorem import_order_decides :
    Relisted ChainExample.parse (resolver "<") (contents "<") script (resolver ">") (contents ">")
      script ∧
    (∃ linked, (linkInner ChainExample.parse 129 engine script (request "<") ()).1 = .ok linked) ∧
    (linkInner ChainExample.parse 129 engine script (request ">") ()).1
      = .error (.raised (.depthExceeded maxImportDepth)) :=
  ⟨relisted, links (by decide) shows_first search_first,
    refuses (by decide) shows_last search_last⟩

open ChainExample in
/-- The first order is linked to its graph, and the second has a path that is too long. -/
theorem chain_linked :
    (∃ linked, (linkInner ChainExample.parse 129 engine script (request "<") ()).1 = .ok linked ∧
      GraphOf (resolver "<") ChainExample.parse (contents "<") script linked.importGraph) ∧
    ∃ path, maxImportDepth < path.length ∧
      Path (importsOf (resolver ">") ChainExample.parse (contents ">"))
        (rootTargets (resolver ">") script) path := by
  obtain ⟨linked, h⟩ := links (by decide) shows_first search_first
  obtain ⟨hgraph, -, -, hreordered⟩ := import_resolution_sound ChainExample.parse
    (show maxImportDepth < 129 by decide) engine script (request "<") (resolver "<") rfl
    (contents "<") (serves "<" _) ()
  refine ⟨⟨linked, h, hgraph linked h⟩, ?_⟩
  have hrefused := refuses (by decide) shows_last search_last
  rcases hreordered script (request ">") (resolver ">") (contents ">") () rfl (fun _ => rfl)
    (serves ">" _) (obliging (by decide) _) relisted linked h with ⟨linked', h'⟩ | ⟨-, hpath⟩
  · rw [hrefused] at h'
    cases h'
  · exact hpath

end Tsumugi.LinkTime
