import CloudLabs.Foundation.Path
import CloudLabs.Http.Response

/-!
# Where the files of a response come from

`get_respose` puts a dot in front of the URL, so that the path begins at the working directory, and
opens what that names. The path stays below the directory as long as the URL does not climb; the
code does not check that it does not, and `get_respose_inside_iff` says which URLs are served from
inside: those that are `Balanced`. A URL does not have to begin with a slash: then the dot becomes
part of its first component.
-/

set_option autoImplicit false

namespace CloudLabs.Http

open CloudLabs.Foundation

/-- The path that `get_respose` passes to `fileOp::Open`, as a C string. -/
def openedPath (URL : Bytes) : Bytes := cString (fileUrl URL)

/-- Up to the first NUL of the URL, the first component is not a lone dot, and behind it no more
components have gone up than down, where the first one counts unless it is empty. -/
def Balanced (URL : Bytes) : Prop :=
  let names := components (cString URL)
  names.head? ≠ some (ascii ".") ∧ Level (if names.head? = some [] then 0 else 1) names.tail

instance (URL : Bytes) : Decidable (Balanced URL) := inferInstanceAs (Decidable (_ ∧ _))

section Paths

variable {URL : Bytes}

/-- A dot in front of a component makes a name of it, unless it is empty or a dot. -/
theorem level_dot_cons {first : Bytes} {rest : List Bytes} :
    Level 0 ((46 :: first) :: rest) ↔
      first ≠ ascii "." ∧ Level (if first = [] then 0 else 1) rest := by
  -- the dot in front is a component of its own, turns `.` into `..`, or begins a name
  by_cases hnil : first = []
  · subst hnil
    rw [if_pos rfl]
    show Level 0 (ascii "." :: rest) ↔ _
    rw [level_stay (.inr rfl)]
    exact (and_iff_right (by decide)).symm
  · rw [if_neg hnil]
    by_cases hdot : first = ascii "."
    · subst hdot
      exact iff_of_false not_level_up fun h => h.1 rfl
    · have hname : isName (46 :: first) = true := by
        have hone : 46 :: first ≠ ascii "." := fun heq => hnil (List.cons.inj heq).2
        have htwo : 46 :: first ≠ ascii ".." := fun heq => hdot (List.cons.inj heq).2
        simp [isName, hone, htwo]
      rw [level_name hname]
      exact (and_iff_right hdot).symm

theorem cString_dot (s : Bytes) : cString (ascii "." ++ s) = 46 :: cString s := rfl

/-- The URL behind the dot. -/
theorem level_dot_iff (URL : Bytes) : Level 0 (components (46 :: cString URL)) ↔ Balanced URL := by
  rw [components_cons_of_ne (by decide)]
  unfold Balanced
  cases hnames : components (cString URL) with
  | nil => exact absurd hnames (List.splitOn_ne_nil _ _)
  | cons first rest =>
    show Level 0 ((46 :: first) :: rest) ↔
      some first ≠ some (ascii ".") ∧ Level (if some first = some [] then 0 else 1) rest
    rw [level_dot_cons]
    simp only [ne_eq, Option.some.injEq]

/-- Without a dot there is nothing that could climb. -/
theorem count_dot (h : (find (ascii ".") URL).isNone = true) : URL.count 46 = 0 := by
  rw [Option.isNone_iff_eq_none, find_eq_none_iff] at h
  apply List.count_eq_zero_of_not_mem
  intro hin
  obtain ⟨a, b, rfl⟩ := List.append_of_mem hin
  exact h ⟨a, b, by simp [ascii]⟩

theorem balanced_of_noDot (h : (find (ascii ".") URL).isNone = true) : Balanced URL := by
  rw [← level_dot_iff]
  apply level_of_notMem
  apply up_notMem_components
  have hle := (List.takeWhile_sublist (l := URL) (· ≠ 0)).count_le 46
  rw [count_dot h] at hle
  rw [List.count_cons_self]
  exact Nat.succ_le_succ hle

/-- A directory's page is inside of it. -/
theorem level_index (h : (find (ascii ".") URL).isNone = true) :
    Level 0 (components (cString (ascii "." ++ URL ++ ascii "/index.html"))) := by
  apply level_of_notMem
  by_cases hnul : (0 : UInt8) ∈ URL
  · -- The name of the page is cut off.
    obtain ⟨a, b, hURL, ha⟩ := List.eq_append_cons_of_mem hnul
    have hcut : cString (ascii "." ++ URL ++ ascii "/index.html") = 46 :: a := by
      rw [hURL, List.append_assoc, List.append_assoc, cString_dot]
      exact congrArg (46 :: ·) (takeWhile_noNul ha _)
    rw [hcut]
    apply up_notMem_components
    have hcount := count_dot h
    rw [hURL, List.count_append] at hcount
    rw [List.count_cons_self]
    omega
  · have hwhole : cString (ascii "." ++ URL ++ ascii "/index.html") =
        (46 :: URL) ++ 47 :: ascii "index.html" := by
      rw [List.append_assoc, cString_dot]
      refine congrArg (46 :: ·) (takeWhile_eq_self ?_)
      intro hin
      rcases List.mem_append.mp hin with hin | hin
      · exact hnul hin
      · exact absurd hin (by decide)
    rw [hwhole, components_append_slash, List.mem_append, not_or]
    refine ⟨up_notMem_components ?_, by decide⟩
    rw [List.count_cons_self, count_dot h]

theorem level_openedPath (URL : Bytes) : Level 0 (components (openedPath URL)) ↔ Balanced URL := by
  unfold openedPath fileUrl
  by_cases hroot : URL = ascii "/"
  · subst hroot
    rw [if_pos rfl]
    exact iff_of_true (by decide) (by decide)
  · rw [if_neg hroot]
    by_cases hdot : (find (ascii ".") URL).isNone = true
    · rw [if_pos hdot]
      exact iff_of_true (level_index hdot) (balanced_of_noDot hdot)
    · rw [if_neg hdot, cString_dot]
      exact level_dot_iff URL

/-- The response depends on no file but the one that is opened. -/
theorem getRespose_congr {files files' : Files} {hc : HttpC}
    (h : files (openedPath hc.URL) = files' (openedPath hc.URL)) :
    getRespose files hc = getRespose files' hc := by
  have h : files (cString (fileUrl hc.URL)) = files' (cString (fileUrl hc.URL)) := h
  unfold getRespose
  dsimp only
  rw [h]

/-- What a `GET` request answers depends on the file it opens, and that file is inside of the
working directory, whatever this is, exactly when the URL is balanced. -/
theorem get_respose_inside_iff (src : Bytes) (hc : HttpC) (haccepted : apart src = .ok hc)
    (hget : hc.mean = ascii "GET") :
    (∀ files files' : Files, files (openedPath hc.URL) = files' (openedPath hc.URL) →
      makeRespose files src = makeRespose files' src) ∧
    ((∀ dir, Inside dir (components (openedPath hc.URL))) ↔ Balanced hc.URL) := by
  constructor
  · intro files files' h
    simp only [makeRespose, haccepted, bind, Except.bind, hget, if_true, getRespose_congr h]
  · rw [inside_all_iff, level_openedPath]

/-- An ordinary page. -/
theorem get_respose_inside_iff_page :
    ∃ hc, apart (ascii "GET /html/post.html HTTP/1.1\r\n\r\n") = .ok hc ∧
      (∀ files files' : Files, files (openedPath hc.URL) = files' (openedPath hc.URL) →
        makeRespose files (ascii "GET /html/post.html HTTP/1.1\r\n\r\n") =
          makeRespose files' (ascii "GET /html/post.html HTTP/1.1\r\n\r\n")) ∧
      ((∀ dir, Inside dir (components (openedPath hc.URL))) ↔ Balanced hc.URL) :=
  ⟨_, rfl, get_respose_inside_iff _ _ rfl rfl⟩

/-- A URL that climbs right away. -/
theorem get_respose_climbs :
    ∃ hc, apart (ascii "GET /../secret HTTP/1.1\r\n\r\n") = .ok hc ∧ hc.mean = ascii "GET" ∧
      ¬ ∀ dir, Inside dir (components (openedPath hc.URL)) := by
  refine ⟨_, rfl, rfl, ?_⟩
  intro h
  have hstop := h [ascii "srv"] [ascii ".", ascii ".."] (by decide)
  exact absurd hstop (by decide)

end Paths

end CloudLabs.Http
