import CekyP2P.Core.Path
import CekyP2P.Protocol.TransferCodec
import CekyP2P.Transfer.Root

/-!
# Where downloads are written

The node hands every offer that decodes to the transfer manager, which joins the offered
name to its download directory. The name is used as it came: it may climb out of the
directory, name a place below it, or replace it.
-/

namespace CekyP2P.Transfer

open Protocol TransferManager LexicalPath

/-- Lexical normalisation of a path. -/
def PathBuf.place (path : PathBuf) : Place := LexicalPath.place path.text.toList

/-- Normalised, the path is the directory followed by exactly one normal component. -/
def PathBuf.IsChildOf (path dir : PathBuf) : Prop :=
  ∃ name, path.place = dir.place.descend [name]

/-- Joining a name enters it from the base. -/
theorem PathBuf.place_join (base : PathBuf) (name : String) :
    (base.join name).place = base.place.enter (LexicalPath.place name.toList) := by
  rw [PathBuf.join]
  split
  case isTrue habsolute =>
    obtain ⟨names, hplace⟩ := place_of_absolute habsolute
    rw [hplace]
    exact hplace
  case isFalse hrelative =>
    split
    case isTrue hbase =>
      rcases hbase with hempty | hslash
      · have hnil : base.text.toList = [] := by simp [hempty]
        refine place_eq_enter ?_ ?_ hrelative
        · simp [String.toList_append, hnil, components, segments, component]
        · simp only [String.toList_append, hnil, List.nil_append]
          exact iff_of_false hrelative (by decide)
      · obtain ⟨init, hinit⟩ := List.getLast?_eq_some_iff.mp hslash
        refine place_eq_enter ?_ ?_ hrelative
        · rw [String.toList_append, hinit, List.append_assoc, List.singleton_append,
            components_append_separator, components_concat_separator]
        · rw [String.toList_append]
          exact isAbsolute_append (by simp [hinit]) _
    case isFalse hbase =>
      have hne : base.text.toList ≠ [] :=
        fun hnil => hbase (Or.inl (String.toList_eq_nil_iff.mp hnil))
      refine place_eq_enter ?_ ?_ hrelative
      · simp only [String.toList_append]
        exact (congrArg components (by simp)).trans (components_append_separator _ _)
      · simp only [String.toList_append, List.append_assoc]
        exact isAbsolute_append hne _

/-- A file name that leads from the directory to a child of it. -/
def LeadsToChild (dir : PathBuf) (fileName : String) : Prop :=
  match LexicalPath.place fileName.toList with
  | .absolute names => ∃ parent name, dir.place = .absolute parent ∧ names = parent ++ [name]
  | .relative ups names => dir.place.ClimbsWithin ups ∧
      ∃ name, names = dir.place.names.drop (dir.place.names.length - ups) ++ [name]

/-- When joining a name leads to a child of the directory. -/
theorem isChildOf_join_iff (dir : PathBuf) (fileName : String) :
    (dir.join fileName).IsChildOf dir ↔ LeadsToChild dir fileName := by
  rw [PathBuf.IsChildOf, PathBuf.place_join, LeadsToChild]
  cases LexicalPath.place fileName.toList with
  | absolute names =>
    simp only [Place.enter]
    cases dir.place with
    | absolute parent => simp [Place.descend]
    | relative ups parent => simp [Place.descend]
  | relative ups names => simp [Place.enter_relative_eq_child_iff]

/-- Only a plain name leads to a child of every directory. -/
theorem forall_leadsToChild_iff (fileName : String) :
    (∀ dir, LeadsToChild dir fileName) ↔
      ∃ name, LexicalPath.place fileName.toList = .relative 0 [name] := by
  constructor
  · intro hall
    have hempty := hall ⟨""⟩
    have hplace : (PathBuf.mk "").place = .relative 0 [] := by decide
    rw [LeadsToChild, hplace] at hempty
    cases hname : LexicalPath.place fileName.toList with
    | absolute names =>
      rw [hname] at hempty
      obtain ⟨_, _, hdir, -⟩ := hempty
      cases hdir
    | relative ups names =>
      rw [hname] at hempty
      obtain ⟨hups, name, rfl⟩ := hempty
      have hzero : ups = 0 := Nat.le_zero.mp hups
      exact ⟨name, by rw [hzero]; rfl⟩
  · rintro ⟨name, hname⟩ dir
    rw [LeadsToChild, hname]
    refine ⟨?_, name, by simp⟩
    cases dir.place with
    | absolute _ => trivial
    | relative _ _ => exact Nat.zero_le _

/-! ## Offers from the network -/

namespace TransferManager

/-- The branch of the event loop for a decrypted `FileOffer` frame: a payload that does not
decode is ignored. -/
def dispatchOffer (g : Guards) (peer : SocketAddr) (payload : List UInt8)
    (disk : Option (List UInt8)) : ManagerM Unit :=
  match FileOffer.decode payload with
  | .ok offer => handleOffer g peer offer disk
  | .error _ => pure ()

end TransferManager

/-- The payload is accepted as an offer, and the manager creates, resizes and maps this path
for it. -/
def CreatesPath (m : TransferManager) (payload : List UInt8) (path : PathBuf) : Prop :=
  ∃ offer peer content s, FileOffer.decode payload = .ok offer ∧
    (Exec.stateAfter (dispatchOffer .dashMap peer payload (some content) m)).activeTransfers
      offer.transferId = some (.receiving s) ∧ s.filePath = path

/-- The path that a payload creates is the joined one. -/
theorem createsPath_iff (m : TransferManager) (payload : List UInt8) (path : PathBuf) :
    CreatesPath m payload path ↔
      ∃ offer, FileOffer.decode payload = .ok offer ∧ path = m.downloadDir.join offer.fileName := by
  constructor
  · rintro ⟨offer, peer, content, s, hdecode, hentry, rfl⟩
    rw [dispatchOffer, hdecode] at hentry
    have hreceived := (handleOffer_entry m peer offer content).symm.trans hentry
    cases hreceived
    exact ⟨offer, hdecode, rfl⟩
  · rintro ⟨offer, hdecode, rfl⟩
    have peer : SocketAddr := ⟨.v4 (Vector.replicate 4 127), 9000⟩
    refine ⟨offer, peer, [], m.received peer offer [], hdecode, ?_, rfl⟩
    rw [dispatchOffer, hdecode]
    exact handleOffer_entry m peer offer []

/-- A payload is written to a child of the download directory exactly when the name it
offers leads to one, and to a child of every directory exactly when that name is plain: not
absolute, and one component once `.` and `..` are resolved. -/
theorem downloads_stay_iff (payload : List UInt8) :
    (∀ m : TransferManager, (∀ path, CreatesPath m payload path → path.IsChildOf m.downloadDir) ↔
      ∀ offer, FileOffer.decode payload = .ok offer →
        LeadsToChild m.downloadDir offer.fileName) ∧
    ((∀ m path, CreatesPath m payload path → path.IsChildOf m.downloadDir) ↔
      ∀ offer, FileOffer.decode payload = .ok offer →
        ∃ name, LexicalPath.place offer.fileName.toList = .relative 0 [name]) := by
  have hone : ∀ m : TransferManager,
      (∀ path, CreatesPath m payload path → path.IsChildOf m.downloadDir) ↔
        ∀ offer, FileOffer.decode payload = .ok offer →
          LeadsToChild m.downloadDir offer.fileName := by
    intro m
    simp only [createsPath_iff, ← isChildOf_join_iff]
    constructor
    · intro hstay offer hdecode
      exact hstay _ ⟨offer, hdecode, rfl⟩
    · rintro hstay path ⟨offer, hdecode, rfl⟩
      exact hstay offer hdecode
  refine ⟨hone, ?_⟩
  simp only [← forall_leadsToChild_iff]
  constructor
  · intro hstay offer hdecode dir
    exact (hone (.new dir)).mp (hstay (.new dir)) offer hdecode
  · intro hstay m
    exact (hone m).mpr fun offer hdecode => hstay offer hdecode m.downloadDir

/-- An offer of one byte under a name that climbs out of the directory. -/
def climbingOffer : FileOffer :=
  ⟨⟨Vector.replicate 16 7⟩, "../a", 1, 1, 1, Vector.replicate 32 0⟩

/-- The bytes are accepted, and the file is created next to the download directory. -/
theorem climbingOffer_leaves_downloads :
    FileOffer.decode climbingOffer.encode = .ok climbingOffer ∧
      CreatesPath (.new ⟨"downloads"⟩) climbingOffer.encode ⟨"downloads/../a"⟩ ∧
      ¬(PathBuf.mk "downloads/../a").IsChildOf ⟨"downloads"⟩ := by
  have hdecode : FileOffer.decode climbingOffer.encode = .ok climbingOffer :=
    FileOffer.decode_eq_ok.mpr ⟨⟨[], (List.append_nil _).symm⟩, by decide, by decide⟩
  refine ⟨hdecode, (createsPath_iff _ _ _).mpr ⟨climbingOffer, hdecode, by decide⟩, ?_⟩
  have hpath : (PathBuf.mk "downloads/../a").place = .relative 0 ["a"] := by decide
  have hdir : (PathBuf.mk "downloads").place = .relative 0 ["downloads"] := by decide
  rintro ⟨name, hchild⟩
  rw [hpath, hdir] at hchild
  simp [Place.descend] at hchild

end CekyP2P.Transfer
