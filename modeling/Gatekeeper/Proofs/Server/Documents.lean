import Gatekeeper.Proofs.Server.Course
import Mathlib.Data.List.Induction

set_option autoImplicit false

/-!
# The messages for documents

Which message a call to show a document leads to depends on the calls before it only: the first call
with a URI opens the document, and each later one changes it to the next version
(`notification?`). The link remembers of the earlier calls no more than which documents were opened
and their versions, which is enough (`Link.Versions`).
-/

namespace Gatekeeper.Server

/-- How often a document with the URI was to be shown. -/
def timesShown (uri : String) (documents : List (String × String)) : Nat :=
  documents.countP fun d => Uri.ofPath? d.1 = some uri

/-- The message for a document with a path and a text, where `before` was to be shown before it. A
path without a URI leads to none. -/
def notification? (language : String) (before : List (String × String))
    (document : String × String) : Option Outgoing :=
  (Uri.ofPath? document.1).map fun uri =>
    if timesShown uri before = 0 then .opened uri language 1 document.2
    else .changed uri (timesShown uri before + 1) document.2

/-- The messages for documents that are shown one after another, where `before` was to be shown
before them. -/
def notificationsAfter (language : String) (before : List (String × String)) :
    List (String × String) → List Outgoing
  | [] => []
  | d :: rest =>
    (notification? language before d).toList ++ notificationsAfter language (before ++ [d]) rest

/-- The messages for documents that are shown one after another. -/
def notifications (language : String) (documents : List (String × String)) : List Outgoing :=
  notificationsAfter language [] documents

/-- Whether a message shows a document. -/
def Outgoing.isDocument : Outgoing → Bool
  | opened _ _ _ _ => true
  | changed _ _ _ => true
  | _ => false

variable {language : String} {before : List (String × String)} {d : String × String}

theorem timesShown_snoc_eq {uri : String} (named : Uri.ofPath? d.1 = some uri) :
    timesShown uri (before ++ [d]) = timesShown uri before + 1 := by
  simp [timesShown, named]

theorem timesShown_snoc_ne {uri : String} (named : Uri.ofPath? d.1 ≠ some uri) :
    timesShown uri (before ++ [d]) = timesShown uri before := by
  simp [timesShown, named]

theorem notificationsAfter_snoc (documents : List (String × String)) :
    notificationsAfter language before (documents ++ [d]) =
      notificationsAfter language before documents ++
        (notification? language (before ++ documents) d).toList := by
  induction documents generalizing before with
  | nil => simp [notificationsAfter]
  | cons first rest ih =>
      rw [List.cons_append, notificationsAfter, notificationsAfter, ih, List.append_assoc,
        List.append_assoc, List.singleton_append]

theorem notifications_snoc (documents : List (String × String)) :
    notifications language (documents ++ [d]) =
      notifications language documents ++ (notification? language documents d).toList := by
  rw [notifications, notificationsAfter_snoc, List.nil_append, notifications]

theorem isDocument_of_notification? {m : Outgoing}
    (shown : notification? language before d = some m) : m.isDocument := by
  obtain ⟨uri, _, rfl⟩ := Option.map_eq_some_iff.mp shown
  split <;> rfl

/-- The messages for documents show documents. -/
theorem isDocument_of_mem_notifications {documents : List (String × String)} {m : Outgoing}
    (shown : m ∈ notifications language documents) : m.isDocument := by
  -- each of them is the message for one of the documents
  induction documents using List.reverseRecOn with
  | nil => cases shown
  | append_singleton documents last ih =>
      rw [notifications_snoc] at shown
      rcases List.mem_append.mp shown with before | here
      · exact ih before
      · exact isDocument_of_notification? (Option.mem_toList.mp here)

namespace Link

/-! ## The versions -/

/-- The link has noted which documents were to be shown, and for each of them how often. -/
def Versions (l : Link) (documents : List (String × String)) : Prop :=
  ∀ uri, (uri ∈ l.documents.opened ↔ timesShown uri documents ≠ 0) ∧
    l.version? uri = if timesShown uri documents = 0 then none else some (timesShown uri documents)

theorem versions_start (c : Client) : Versions (.start c) [] := fun _ =>
  ⟨⟨nofun, fun shown => absurd rfl shown⟩, rfl⟩

variable {l : Link} {documents : List (String × String)}

theorem lookup_filter_ne {uri other : String} (ne : other ≠ uri) (ds : List (String × Nat)) :
    (ds.filter (·.1 != uri)).lookup other = ds.lookup other := by
  induction ds with
  | nil => rfl
  | cons d rest ih =>
      obtain ⟨name, version⟩ := d
      by_cases same : name = uri
      · have skipped : (other == name) = false := by simpa [same] using ne
        rw [List.filter_cons_of_neg (by simp [same]), List.lookup_cons, skipped, ih]
      · rw [List.filter_cons_of_pos (by simpa using same), List.lookup_cons, List.lookup_cons, ih]

theorem version?_setVersion (l : Link) (uri other : String) (version : Nat) :
    (l.setVersion uri version).version? other =
      if other = uri then some version else l.version? other := by
  unfold version? setVersion
  by_cases same : other = uri
  · simp [same]
  · have ne : (other == uri) = false := by simpa using same
    rw [List.lookup_cons, ne, if_neg same]
    exact lookup_filter_ne same l.documents.versions

/-- It is enough to note one more of the document that is shown. -/
theorem Versions.snoc {d : String × String} {uri : String} {l' : Link}
    (versions : l.Versions documents) (named : Uri.ofPath? d.1 = some uri)
    (opened : ∀ other, other ∈ l'.documents.opened ↔ other = uri ∨ other ∈ l.documents.opened)
    (version : ∀ other, l'.version? other =
      if other = uri then some (timesShown uri documents + 1) else l.version? other) :
    l'.Versions (documents ++ [d]) := by
  intro other
  rw [opened, version]
  by_cases same : other = uri
  · rw [same, if_pos rfl, timesShown_snoc_eq named]
    simp
  · rw [if_neg same, timesShown_snoc_ne (by simpa [named] using Ne.symm same)]
    simpa [same] using versions other

/-- **A call leads to the message that the calls before it ask for**, and is noted. -/
theorem Versions.openDocument (versions : l.Versions documents) (path text : String) :
    (l.openDocument path text).Versions (documents ++ [(path, text)]) ∧
      (l.openDocument path text).caller =
        match notification? l.client.language documents (path, text) with
        | some m => .showing m
        | none => .idle (.error (.noUri path)) := by
  cases named : Uri.ofPath? path with
  | none =>
      have shape : l.openDocument path text =
          { l with caller := .idle (.error (.noUri path)) } := by
        rw [Link.openDocument, named]
      rw [shape, notification?, named]
      refine ⟨fun uri => ?_, rfl⟩
      rw [timesShown_snoc_ne (by simp [named])]
      exact versions uri
  | some uri =>
      obtain ⟨open_iff, version⟩ := versions uri
      rw [Link.openDocument, notification?, named]
      by_cases first : timesShown uri documents = 0
      · have fresh : uri ∉ l.documents.opened := fun isOpen => open_iff.mp isOpen first
        simp only [if_neg fresh, Option.map_some, if_pos first]
        refine ⟨versions.snoc named (fun other => List.mem_cons) (fun other => ?_), trivial⟩
        rw [first]
        exact version?_setVersion l uri other 1
      · have isOpen : uri ∈ l.documents.opened := open_iff.mpr first
        rw [if_neg first] at version
        simp only [if_pos isOpen, version, Option.getD_some, Option.map_some, if_neg first]
        refine ⟨versions.snoc named (fun other => ?_) (fun other => ?_), trivial⟩
        · exact ⟨.inr, fun noted => noted.elim (fun same => same ▸ isOpen) id⟩
        · exact version?_setVersion l uri other _

end Link

end Gatekeeper.Server
