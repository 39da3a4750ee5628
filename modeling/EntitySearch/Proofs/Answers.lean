import EntitySearch.Http.Route
import EntitySearch.Proofs.Execution
/-!
What a request is answered. The first of its parameters, its body, the restriction, the search and
the repository that has something to say decides, and a server error is never said but for one of
the repository.
-/
namespace EntitySearch.Http

namespace Response

/-- The problems of a request, all of them. -/
def invalid (issues : List Issue) : Response :=
  ⟨422, .json (.object [("details", .array (issues.map fun i =>
      .text (i.field ++ ": " ++ i.message))), ("error", .text "Validation failed")])⟩

/-- Criteria that do not fit what is searched, and how they do not. -/
def refused (e : SearchError) : Response :=
  ⟨400, .json (.object [("error", .text (match e with
    | .unresolved key fault => "Cannot resolve field '" ++ key ++ "': " ++ fault.reason
    | .wrongShape operation expected =>
      "Operation " ++ operation.name ++ " requires " ++ expected.description
    | .wrongType key expected value =>
      "Value '" ++ value ++ "' for '" ++ key ++ "' is not a valid " ++ expected
    | e => e.message))])⟩

/-- What is said of a repository that fails, however it does. -/
def failed : Response := ⟨500, .json (.object [("error", .text "A database error occurred")])⟩

theorem fits_toNat (n : UInt64) :
    -0x8000000000000000 ≤ (n.toNat : Int) ∧ (n.toNat : Int) < 0x10000000000000000 := by
  have := n.toNat_lt
  omega

/-- The records of a page, where it is, and how much there is in all. -/
def found (p : Page Json) : Response :=
  let whole (n : UInt64) : Json := .number (.whole n.toNat (fits_toNat n))
  ⟨200, .json (.object [("content", .array p.content), ("page", whole p.page),
    ("size", whole p.size), ("totalElements", whole p.totalElements),
    ("totalPages", whole p.totalPages)])⟩

@[simp] theorem status_invalid (issues : List Issue) : (invalid issues).status = 422 := rfl

@[simp] theorem status_refused (e : SearchError) : (refused e).status = 400 := rfl

@[simp] theorem status_failed : failed.status = 500 := rfl

@[simp] theorem status_found (p : Page Json) : (found p).status = 200 := rfl

/-- The response that a page is sent in. -/
theorem found_eq (p : Page Json) : ⟨200, .json (pageJson p)⟩ = found p := rfl

theorem error_ofIssues (issues : List Issue) : error (.ofIssues issues) = invalid issues := by
  simp only [error, ApiError.ofIssues, ApiError.status, ApiError.body, invalid, List.map_map]
  rfl

theorem error_of_names {c : Criterion} {e : SearchError} (h : e.Names c) :
    error (.ofSearchError e) = refused e := by
  cases e with
  | unresolved | wrongShape | wrongType => rfl
  | invalid | unknownOperation | storage => exact h.elim

theorem error_of_refuses {ρ : Type} {s : Resource ρ Json} {forest : Forest} {r : PageRequest}
    {e : SearchError} (h : s.Refuses forest r e) : error (.ofSearchError e) = refused e := by
  obtain ⟨c, hc⟩ | ⟨key, fault, rfl⟩ := h.names_or_unresolved
  · exact error_of_names hc
  · rfl

end Response

/-- What is wrong with a request. The body counts only where the parameters are right. -/
def Rejects (config : SearchConfig) (params : SearchParams) (body : Json) (issues : List Issue) :
    Prop :=
  params.pageRequest config = .error issues ∨
    (∃ r, params.pageRequest config = .ok r) ∧ Forest.ofJson body = .error issues

/-- The page and the criteria that a request asks for. -/
def Accepts (config : SearchConfig) (params : SearchParams) (body : Json) (r : PageRequest)
    (forest : Forest) : Prop :=
  params.pageRequest config = .ok r ∧ Forest.ofJson body = .ok forest

section Search
variable {ρ : Type} {s : Resource ρ Json} {config : SearchConfig} {params : SearchParams}
  {body : Json} {issues : List Issue} {r : PageRequest} {forest : Forest}

theorem rejects_or_accepts (config : SearchConfig) (params : SearchParams) (body : Json) :
    (∃ issues, Rejects config params body issues) ∨
      ∃ r forest, Accepts config params body r forest := by
  cases hparams : params.pageRequest config with
  | error issues => exact .inl ⟨issues, .inl hparams⟩
  | ok r =>
    cases hbody : Forest.ofJson body with
    | error issues => exact .inl ⟨issues, .inr ⟨⟨r, hparams⟩, hbody⟩⟩
    | ok forest => exact .inr ⟨r, forest, hparams, hbody⟩

section Running
variable {m : Type → Type} [Monad m] {repository : Repository m ρ}

theorem search_of_params (h : params.pageRequest config = .error issues) :
    search s repository config params body = pure (.invalid issues) := by
  simp only [search, h, Response.error_ofIssues]

theorem search_of_rejects (h : Rejects config params body issues) :
    search s repository config params body = pure (.invalid issues) := by
  obtain hparams | ⟨⟨r, hparams⟩, hbody⟩ := h
  · exact search_of_params hparams
  · simp only [search, hparams, hbody, Response.error_ofIssues]

theorem search_of_accepts (h : Accepts config params body r forest) :
    search s repository config params body = do
      match ← s.findAll repository forest r with
      | .error e => return .error (.ofSearchError e)
      | .ok page => return .found page := by
  simp only [search, h.1, h.2]
  apply bind_congr
  rintro (e | page)
  · rfl
  · exact congrArg pure (Response.found_eq page)

end Running

section Answered
variable {answer : List Call → Except StorageError (Page ρ)} {earlier : List Call}

theorem run_of_hidden (h : Accepts config params body r forest)
    (hhidden : s.restrict forest r = none) :
    (search s (.answering answer) config params body).run earlier =
      (.found ⟨[], 0, 0, r.page, r.size⟩, earlier) := by
  rw [search_of_accepts h, Resource.findAll_of_hidden hhidden, Page.empty_eq]
  rfl

theorem run_of_refuses (h : Accepts config params body r forest) {e : SearchError}
    (hrefuses : s.Refuses forest r e) :
    (search s (.answering answer) config params body).run earlier = (.refused e, earlier) := by
  rw [search_of_accepts h, Resource.findAll_of_refuses hrefuses,
    ← Response.error_of_refuses hrefuses]
  rfl

theorem run_of_executes (h : Accepts config params body r forest) {call : Call}
    (hexecutes : s.Executes forest r call) :
    (search s (.answering answer) config params body).run earlier =
      (match answer (earlier ++ [call]) with
        | .error _ => .failed
        | .ok page => .found { page with content := page.content.map s.present },
        earlier ++ [call]) := by
  have hrun := Repository.run_answering answer call earlier
  rw [search_of_accepts h, Resource.findAll_of_executes hexecutes]
  simp only [bind_map_left, StateT.run_bind, hrun]
  cases answer (earlier ++ [call]) <;> rfl

section Ends
variable (s : Resource ρ Json) (answer : List Call → Except StorageError (Page ρ))
  (earlier : List Call) (config : SearchConfig) (params : SearchParams) (body : Json)

/-- The five ways a search ends: with what response, and what the repository was asked by then. -/
inductive Ends : Response × List Call → Prop
  | rejected (issues : List Issue) (h : Rejects config params body issues) :
      Ends (.invalid issues, earlier)
  | hidden (r : PageRequest) (forest : Forest) (h : Accepts config params body r forest)
      (hidden : s.restrict forest r = none) : Ends (.found ⟨[], 0, 0, r.page, r.size⟩, earlier)
  | refused (r : PageRequest) (forest : Forest) (h : Accepts config params body r forest)
      (e : SearchError) (refuses : s.Refuses forest r e) : Ends (.refused e, earlier)
  | failed (r : PageRequest) (forest : Forest) (h : Accepts config params body r forest)
      (call : Call) (executes : s.Executes forest r call) (e : StorageError)
      (answered : answer (earlier ++ [call]) = .error e) : Ends (.failed, earlier ++ [call])
  | found (r : PageRequest) (forest : Forest) (h : Accepts config params body r forest)
      (call : Call) (executes : s.Executes forest r call) (page : Page ρ)
      (answered : answer (earlier ++ [call]) = .ok page) :
      Ends (.found { page with content := page.content.map s.present }, earlier ++ [call])

theorem ends_run : Ends s answer earlier config params body
    ((search s (.answering answer) config params body).run earlier) := by
  rcases rejects_or_accepts config params body with ⟨issues, h⟩ | ⟨r, forest, h⟩
  · rw [search_of_rejects h]
    exact .rejected issues h
  rcases s.hides_or_refuses_or_executes forest r with
    hhidden | ⟨e, hrefuses⟩ | ⟨call, hexecutes⟩
  · rw [run_of_hidden h hhidden]
    exact .hidden r forest h hhidden
  · rw [run_of_refuses h hrefuses]
    exact .refused r forest h e hrefuses
  · rw [run_of_executes h hexecutes]
    cases hanswer : answer (earlier ++ [call]) with
    | error e => exact .failed r forest h call hexecutes e hanswer
    | ok page => exact .found r forest h call hexecutes page hanswer

end Ends

theorem status_mem :
    ((search s (.answering answer) config params body).run earlier).1.status ∈
      [200, 400, 422, 500] := by
  have hends := ends_run s answer earlier config params body
  generalize (search s (.answering answer) config params body).run earlier = out at hends ⊢
  cases hends <;> simp

theorem status_eq_422_iff :
    ((search s (.answering answer) config params body).run earlier).1.status = 422 ↔
      ∃ issues, Rejects config params body issues := by
  constructor
  · have hends := ends_run s answer earlier config params body
    generalize (search s (.answering answer) config params body).run earlier = out at hends ⊢
    intro hstatus
    cases hends with
    | rejected issues h => exact ⟨issues, h⟩
    | hidden | refused | failed | found => simp at hstatus
  · rintro ⟨issues, h⟩
    rw [search_of_rejects h]
    rfl

theorem status_eq_400_iff :
    ((search s (.answering answer) config params body).run earlier).1.status = 400 ↔
      ∃ r forest e, Accepts config params body r forest ∧ s.Refuses forest r e := by
  constructor
  · have hends := ends_run s answer earlier config params body
    generalize (search s (.answering answer) config params body).run earlier = out at hends ⊢
    intro hstatus
    cases hends with
    | refused r forest h e hrefuses => exact ⟨r, forest, e, h, hrefuses⟩
    | rejected | hidden | failed | found => simp at hstatus
  · rintro ⟨r, forest, e, h, hrefuses⟩
    rw [run_of_refuses h hrefuses, Response.status_refused]

theorem status_eq_500_iff :
    ((search s (.answering answer) config params body).run earlier).1.status = 500 ↔
      ∃ r forest call e, Accepts config params body r forest ∧ s.Executes forest r call ∧
        answer (earlier ++ [call]) = .error e := by
  constructor
  · have hends := ends_run s answer earlier config params body
    generalize (search s (.answering answer) config params body).run earlier = out at hends ⊢
    intro hstatus
    cases hends with
    | failed r forest h call hexecutes e hanswer =>
      exact ⟨r, forest, call, e, h, hexecutes, hanswer⟩
    | rejected | hidden | refused | found => simp at hstatus
  · rintro ⟨r, forest, call, e, h, hexecutes, hanswer⟩
    rw [run_of_executes h hexecutes, hanswer, Response.status_failed]

/-- An answer that nothing was asked for comes from the restriction. -/
theorem status_eq_200_unasked_iff :
    let out := (search s (.answering answer) config params body).run earlier
    out.1.status = 200 ∧ out.2 = earlier ↔
      ∃ r forest, Accepts config params body r forest ∧ s.restrict forest r = none := by
  intro out
  constructor
  · have hends : Ends s answer earlier config params body out := ends_run ..
    clear_value out
    rintro ⟨hstatus, hcalls⟩
    cases hends with
    | hidden r forest h hhidden => exact ⟨r, forest, h, hhidden⟩
    | found => simp at hcalls
    | rejected | refused | failed => simp at hstatus
  · rintro ⟨r, forest, h, hhidden⟩
    simp [out, run_of_hidden h hhidden]

theorem status_eq_200_asked_iff :
    let out := (search s (.answering answer) config params body).run earlier
    out.1.status = 200 ∧ out.2 ≠ earlier ↔ ∃ r forest call page,
      Accepts config params body r forest ∧ s.Executes forest r call ∧
        answer (earlier ++ [call]) = .ok page := by
  intro out
  constructor
  · have hends : Ends s answer earlier config params body out := ends_run ..
    clear_value out
    rintro ⟨hstatus, hcalls⟩
    cases hends with
    | found r forest h call hexecutes page hanswer =>
      exact ⟨r, forest, call, page, h, hexecutes, hanswer⟩
    | hidden => exact absurd rfl hcalls
    | rejected | refused | failed => simp at hstatus
  · rintro ⟨r, forest, call, page, h, hexecutes, hanswer⟩
    simp [out, run_of_executes h hexecutes, hanswer]

end Answered

theorem status_of_decode {request : Request} {response : Response}
    (h : request.decode = .error response) : response.status = 400 ∨ response.status = 415 := by
  unfold Request.decode at h
  split at h
  · exact .inl (by rw [← Except.error.inj h]; rfl)
  · split at h
    · split at h
      · cases h
      · exact .inl (by rw [← Except.error.inj h]; rfl)
    · exact .inr (by rw [← Except.error.inj h]; rfl)

/-- A request is searched for, or answered from what it looks like. -/
theorem serve_cases {m : Type → Type} [Monad m] (s : Resource ρ Json)
    (repository : Repository m ρ) (config : SearchConfig) (request : Request) :
    (∃ response, response.status ∈ [400, 404, 405, 415] ∧
      serve s repository config request = pure response) ∨
    ∃ params body, request.decode = .ok (params, body) ∧
      serve s repository config request = search s repository config params body := by
  unfold serve
  split
  · exact .inl ⟨_, by simp, rfl⟩
  · split
    · exact .inl ⟨_, by simp, rfl⟩
    · split
      next response hdecode =>
        have hstatus := status_of_decode hdecode
        exact .inl ⟨response, by simp only [List.mem_cons]; omega, rfl⟩
      next params body hdecode => exact .inr ⟨params, body, hdecode, rfl⟩

theorem failed_of_serve {answer : List Call → Except StorageError (Page ρ)} {earlier : List Call}
    (request : Request) :
    let served := (serve s (.answering answer) config request).run earlier
    served.1.status = 500 → served.1 = .failed ∧
      ∃ call e, served.2 = earlier ++ [call] ∧ answer (earlier ++ [call]) = .error e := by
  intro served hstatus
  rcases serve_cases s (.answering answer) config request with
    ⟨response, hmem, hserve⟩ | ⟨params, body, -, hserve⟩
  · have hstatus' : response.status = 500 := by
      simp only [served, hserve] at hstatus
      exact hstatus
    simp [hstatus'] at hmem
  · simp only [served, hserve] at hstatus ⊢
    obtain ⟨r, forest, call, e, h, hexecutes, hanswer⟩ := status_eq_500_iff.mp hstatus
    rw [run_of_executes h hexecutes, hanswer]
    exact ⟨rfl, call, e, rfl, hanswer⟩

/-- Parameters or criteria that are wrong are answered 422 with all their problems, whatever is
searched and wherever its records are. Any others are answered by the first that has something to
say: the restriction, which hides everything; the search, which says 400 and why; the repository,
whose failures all read alike. So each status is given for its own reason only, and no request at
all is answered 500 unless the repository was asked last and failed. -/
theorem search_answers (s : Resource ρ Json) (answer : List Call → Except StorageError (Page ρ))
    (earlier : List Call) (config : SearchConfig) (params : SearchParams) (body : Json) :
    let out := (search s (.answering answer) config params body).run earlier
    (∀ issues, params.pageRequest config = .error issues →
      ∀ {m : Type → Type} [Monad m] (s' : Resource ρ Json) (repository : Repository m ρ) body',
        search s' repository config params body' = pure (.invalid issues)) ∧
    (∀ issues, (∃ r, params.pageRequest config = .ok r) → Forest.ofJson body = .error issues →
      ∀ {m : Type → Type} [Monad m] (s' : Resource ρ Json) (repository : Repository m ρ),
        search s' repository config params body = pure (.invalid issues)) ∧
    (∀ r forest, Accepts config params body r forest →
      (s.restrict forest r = none → out = (.found ⟨[], 0, 0, r.page, r.size⟩, earlier)) ∧
      (∀ e, s.Refuses forest r e → out = (.refused e, earlier)) ∧
      ∀ call, s.Executes forest r call → out.2 = earlier ++ [call] ∧
        out.1 = match answer (earlier ++ [call]) with
          | .error _ => .failed
          | .ok page => .found { page with content := page.content.map s.present }) ∧
    out.1.status ∈ [200, 400, 422, 500] ∧
    (out.1.status = 422 ↔ ∃ issues, Rejects config params body issues) ∧
    (out.1.status = 400 ↔
      ∃ r forest e, Accepts config params body r forest ∧ s.Refuses forest r e) ∧
    (out.1.status = 500 ↔ ∃ r forest call e, Accepts config params body r forest ∧
      s.Executes forest r call ∧ answer (earlier ++ [call]) = .error e) ∧
    (out.1.status = 200 ∧ out.2 = earlier ↔
      ∃ r forest, Accepts config params body r forest ∧ s.restrict forest r = none) ∧
    (out.1.status = 200 ∧ out.2 ≠ earlier ↔ ∃ r forest call page,
      Accepts config params body r forest ∧ s.Executes forest r call ∧
        answer (earlier ++ [call]) = .ok page) ∧
    ∀ request, let served := (serve s (.answering answer) config request).run earlier
      served.1.status = 500 → served.1 = .failed ∧
        ∃ call e, served.2 = earlier ++ [call] ∧ answer (earlier ++ [call]) = .error e := by
  intro out
  refine ⟨fun _ h _ _ _ _ _ => search_of_params h, fun _ hparams hbody _ _ _ _ =>
    search_of_rejects (.inr ⟨hparams, hbody⟩), fun r forest h => ⟨run_of_hidden h,
      fun e => run_of_refuses h, fun call hexecutes => ?_⟩, ?_, ?_, ?_, ?_, ?_, ?_,
    fun request => ?_⟩
  · simp [out, run_of_executes h hexecutes]
  · exact status_mem
  · exact status_eq_422_iff
  · exact status_eq_400_iff
  · exact status_eq_500_iff
  · exact status_eq_200_unasked_iff
  · exact status_eq_200_asked_iff
  · exact failed_of_serve request

end Search
end EntitySearch.Http
