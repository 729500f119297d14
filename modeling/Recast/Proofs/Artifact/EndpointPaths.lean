import Recast.Proofs.Artifact.ServiceBrackets

/-!
# Paths of endpoints

An endpoint loses what stands up to its first `://` and the host behind that, wherever it stands. So a
path that holds an address, as its query may, is not kept (`endpointPath_eq_self_iff`), and taking the
path twice goes further where the first path still holds a separator.
-/

namespace Recast.Template

open Text

theorem barePath_of_not_contains {e : String} (h : Str.contains e "://" = false) : barePath e = e.toList := by
  have hnone : indexOf? e.toList "://".toList = none := by simpa [Str.contains, contains] using h
  rw [barePath, cut?, hnone]
  rfl

theorem barePath_of_indexOf? {e : String} {i : Nat} (h : indexOf? e.toList "://".toList = some i) :
    barePath e = (e.toList.drop (i + 3)).dropWhile (· != '/') := by
  rw [barePath, cut?, h]
  rfl

/-- The path behind a separator is shorter than the endpoint, by the separator at least. -/
theorem length_barePath_add_le {e : String} (h : Str.contains e "://" = true) :
    (barePath e).length + 3 ≤ e.toList.length := by
  obtain ⟨i, hi⟩ := Option.isSome_iff_exists.1 h
  have hsplit := congrArg List.length (split_of_indexOf? hi)
  have hrest := (List.dropWhile_suffix (· != '/') (l := e.toList.drop (i + 3))).length_le
  have hseparator : "://".toList.length = 3 := rfl
  rw [barePath_of_indexOf? hi]
  rw [List.length_append, List.length_append, hseparator] at hsplit
  omega

/-- Every path begins with a slash. -/
theorem head?_endpointPath (e : String) : (endpointPath e).toList.head? = some '/' := by
  rw [endpointPath_eq]
  split
  · rename_i h
    rw [String.toList_ofList]
    exact beq_iff_eq.1 h
  · rw [String.toList_ofList]
    rfl

/-- What begins with a slash is kept exactly if it holds no separator. -/
theorem endpointPath_eq_self_iff {e : String} (h : e.toList.head? = some '/') :
    endpointPath e = e ↔ Str.contains e "://" = false := by
  constructor
  · intro hself
    by_contra hcontains
    have hshort := length_barePath_add_le (by simpa using hcontains)
    have hlength : (endpointPath e).toList.length = e.toList.length := by rw [hself]
    rcases toList_endpointPath e with hpath | hpath
    · rw [hpath] at hlength
      omega
    · rw [hpath, List.length_cons] at hlength
      omega
  · intro hnone
    rw [endpointPath_eq, barePath_of_not_contains hnone, if_pos (beq_iff_eq.2 h)]
    exact String.ofList_toList

/-- A scheme without a slash stands before the first separator. -/
theorem firstAfter_scheme {scheme : List Char} (h : '/' ∉ scheme) : FirstAfter "://".toList scheme := by
  induction scheme with
  | nil => exact firstAfter_nil _
  | cons c scheme ih =>
    simp only [List.mem_cons, not_or] at h
    intro rest
    -- The second character of a separator is a slash, and the next one here is none.
    have hstart : startsWith (c :: (scheme ++ ("://".toList ++ rest))) "://".toList = false := by
      cases scheme with
      | nil => simp [startsWith, dropPrefix?]
      | cons d scheme =>
        simp only [List.mem_cons, not_or] at h
        simp [startsWith, dropPrefix?, h.2.1]
    rw [List.cons_append, indexOf?, if_neg (Bool.eq_false_iff.1 hstart), ih h.2 rest]
    rfl

/-- An address loses its origin. -/
theorem endpointPath_address {scheme host : String} (hscheme : '/' ∉ scheme.toList)
    (hhost : '/' ∉ host.toList) (rest : String) :
    endpointPath (scheme ++ "://" ++ host ++ "/" ++ rest) = "/" ++ rest := by
  have htext : (scheme ++ "://" ++ host ++ "/" ++ rest).toList =
      scheme.toList ++ ("://".toList ++ (host.toList ++ '/' :: rest.toList)) := by
    simp [String.toList_append]
  have hindex := firstAfter_scheme hscheme (host.toList ++ '/' :: rest.toList)
  rw [← htext] at hindex
  have hdrop : (scheme ++ "://" ++ host ++ "/" ++ rest).toList.drop (scheme.toList.length + 3) =
      host.toList ++ '/' :: rest.toList := by
    rw [htext, ← List.append_assoc]
    exact List.drop_left' (by simp)
  have hbare : barePath (scheme ++ "://" ++ host ++ "/" ++ rest) = '/' :: rest.toList := by
    rw [barePath_of_indexOf? hindex, hdrop, List.dropWhile_append_of_pos]
    · rfl
    · intro c hc
      rw [bne_iff_ne]
      rintro rfl
      exact hhost hc
  rw [endpointPath_eq, hbare, if_pos (by rfl)]
  exact String.toList_inj.1 (by simp)

/-- How endpoints come to paths. An endpoint that is a path is requested as it is, and a path is the path
of itself, exactly where no separator is found; the paths of a component stand in the order in which they
first come, each once. -/
theorem endpoint_paths_kept_iff (f : Facts) :
    (∀ e, (endpointPath e).toList.head? = some '/') ∧
    (∀ e : String, e.toList.head? = some '/' → (endpointPath e = e ↔ Str.contains e "://" = false)) ∧
    (∀ scheme host rest : String, '/' ∉ scheme.toList → '/' ∉ host.toList →
      endpointPath (scheme ++ "://" ++ host ++ "/" ++ rest) = "/" ++ rest) ∧
    (∀ e, endpointPath (endpointPath e) = endpointPath e ↔ Str.contains (endpointPath e) "://" = false) ∧
    (endpointPaths f).Nodup ∧ endpointPaths f = (f.endpoints.map endpointPath).eraseDups := by
  refine ⟨head?_endpointPath, fun e => endpointPath_eq_self_iff,
    fun scheme host rest hscheme hhost => endpointPath_address hscheme hhost rest,
    fun e => endpointPath_eq_self_iff (head?_endpointPath e), ?_, endpointPaths_eq f⟩
  rw [endpointPaths_eq]
  exact nodup_eraseDups _

def login : String := "/login?next=https://example.com/home"

/-- A page to go on to behind the login takes the place of the login. -/
theorem login_not_kept :
    endpointPath login = "/home" ∧ endpointPath login ≠ login ∧
      endpointPath ("https" ++ "://" ++ "shop.example.com" ++ "/" ++ "go?to=http://a/b") = "/go?to=http://a/b" ∧
      endpointPath "/go?to=http://a/b" ≠ "/go?to=http://a/b" ∧
      endpointPaths { Facts.bare "Panel" with endpoints := [login, "/home", "/users"] } = ["/home", "/users"] := by
  let f : Facts := { Facts.bare "Panel" with endpoints := [login, "/home", "/users"] }
  obtain ⟨-, hself, haddress, htwice, -, hpaths⟩ := endpoint_paths_kept_iff f
  have hgo := haddress "https" "shop.example.com" "go?to=http://a/b" (by decide) (by decide)
  refine ⟨by decide, ?_, hgo, ?_, ?_⟩
  · rw [Ne, hself login (by decide)]
    decide
  · have hagain := htwice ("https" ++ "://" ++ "shop.example.com" ++ "/" ++ "go?to=http://a/b")
    rw [hgo] at hagain
    exact fun h => absurd (hagain.1 h) (by decide)
  · rw [show endpointPaths { Facts.bare "Panel" with endpoints := [login, "/home", "/users"] } = _ from hpaths]
    decide

end Recast.Template
