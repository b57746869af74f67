import Binaural.Proofs.Discovery
import Binaural.Proofs.Rejections

/-!
Loading datasets, with any decoder of files.

A recording is accepted if its name tells its angle and its file is one of mono samples at the
right rate in a supported format (`Recording.Accepted`); otherwise it is rejected, for the first
thing that is wrong with it (`Recording.Rejected`). Loading succeeds if all recordings that are
found are accepted, are of one bit depth and make a dataset together; else the first that is wrong
decides (`Recording.Fault`). Integers are used exactly, and never out of range, if the decoder gives
only such that fit their bits (`Recording.Decoder.Fits`), which that of WAVE files does.

* `Recording.decode_eq_ok_iff` and `Recording.decode_eq_error_iff` are about one file,
  `Recording.decodeAll_eq_ok_iff` and `Recording.decodeAll_eq_error_iff` about all of them in turn.
* `Recording.loadDataset_of_readable` puts finding and loading together.
-/

namespace Binaural

namespace Recording

variable {ω : Type} {decoder : Decoder ω} {t t' : FileTree} {root path : Path}

/-! ## Files -/

/-- What the decoder opens at a path. -/
def openAt? (decoder : Decoder ω) (t : FileTree) (path : Path) : Option ω :=
  match t.read path with
  | .error _ => none
  | .ok bytes => decoder.open? bytes.toList

/-- The formats whose samples are used. -/
def Supported (f : WaveFormat) : Prop :=
  f.format = .float ∧ f.bits = 32 ∨ f.format = .integer ∧ 8 ≤ f.bits ∧ f.bits ≤ 32

/-- The samples of a file as they are used. -/
def samplesOf? (decoder : Decoder ω) (w : ω) : Option (List Float) :=
  match (decoder.format w).format with
  | .float => decoder.floats? w
  | .integer =>
    (decoder.integers? w).map fun samples => samples.map (normalize (decoder.format w).bits)

/-- A recording that is decoded: its name tells its angle, and its file is one of mono samples at
the sample rate in a supported format. -/
structure Accepted (decoder : Decoder ω) (t : FileTree) (path : Path) (r : Decoded) : Prop where
  named : FileName.parse path = .ok (r.elevation, r.azimuth)
  decoded : ∃ w, openAt? decoder t path = some w ∧ (decoder.format w).sampleRate = sampleRate ∧
    (decoder.format w).channels = 1 ∧ Supported (decoder.format w) ∧
    r.bits = (decoder.format w).bits ∧ samplesOf? decoder w = some r.samples

/-- The first thing that is wrong with a recording. -/
inductive Rejected (decoder : Decoder ω) (t : FileTree) (path : Path) : CompileError Float → Prop
  | name {e : ParseError} (failed : FileName.parse path = .error e) :
    Rejected decoder t path (.parse e)
  | file {angle : Int × Int} (named : FileName.parse path = .ok angle)
    (undecodable : openAt? decoder t path = none) :
    Rejected decoder t path (.io .load (.undecodable path))
  | sampleRate {angle : Int × Int} {w : ω} (named : FileName.parse path = .ok angle)
    (decoded : openAt? decoder t path = some w)
    (wrong : (decoder.format w).sampleRate ≠ Binaural.sampleRate) :
    Rejected decoder t path
      (.integrity (.sampleRate path Binaural.sampleRate (decoder.format w).sampleRate))
  | channels {angle : Int × Int} {w : ω} (named : FileName.parse path = .ok angle)
    (decoded : openAt? decoder t path = some w)
    (rate : (decoder.format w).sampleRate = Binaural.sampleRate)
    (wrong : (decoder.format w).channels ≠ 1) :
    Rejected decoder t path (.integrity (.channels path (decoder.format w).channels))
  | sampleFormat {angle : Int × Int} {w : ω} (named : FileName.parse path = .ok angle)
    (decoded : openAt? decoder t path = some w)
    (rate : (decoder.format w).sampleRate = Binaural.sampleRate)
    (mono : (decoder.format w).channels = 1) (wrong : ¬ Supported (decoder.format w)) :
    Rejected decoder t path
      (.integrity (.sampleFormat path (decoder.format w).bits (decoder.format w).format))
  | samples {angle : Int × Int} {w : ω} (named : FileName.parse path = .ok angle)
    (decoded : openAt? decoder t path = some w)
    (rate : (decoder.format w).sampleRate = Binaural.sampleRate)
    (mono : (decoder.format w).channels = 1) (supported : Supported (decoder.format w))
    (undecodable : samplesOf? decoder w = none) :
    Rejected decoder t path (.io .load (.undecodable path))

theorem samples_of_supported {w : ω} (rate : (decoder.format w).sampleRate = Binaural.sampleRate)
    (mono : (decoder.format w).channels = 1) (supported : Supported (decoder.format w)) :
    samples decoder path w =
      match samplesOf? decoder w with
      | some xs => .ok xs
      | none => .error (.io .load (.undecodable path)) := by
  unfold samples samplesOf?
  dsimp only
  rw [if_neg (not_not.mpr rate), if_neg (not_not.mpr mono)]
  rcases supported with ⟨format, bits⟩ | ⟨format, bits⟩
  · rw [format]
    dsimp only
    cases decoder.floats? w with
    | none => exact if_pos bits
    | some xs => exact if_pos bits
  · rw [format]
    dsimp only
    cases decoder.integers? w with
    | none => exact if_pos bits
    | some xs => exact if_pos bits

theorem samples_of_not_supported {w : ω}
    (rate : (decoder.format w).sampleRate = Binaural.sampleRate)
    (mono : (decoder.format w).channels = 1) (wrong : ¬ Supported (decoder.format w)) :
    samples decoder path w =
      .error (.integrity
        (.sampleFormat path (decoder.format w).bits (decoder.format w).format)) := by
  unfold samples
  dsimp only
  rw [if_neg (not_not.mpr rate), if_neg (not_not.mpr mono)]
  rw [Supported, not_or] at wrong
  cases format : (decoder.format w).format with
  | float => exact if_neg fun bits => wrong.1 ⟨format, bits⟩
  | integer => exact if_neg fun bits => wrong.2 ⟨format, bits⟩

theorem decode_eq : decode decoder t path =
    match FileName.parse path with
    | .error e => .error (.parse e)
    | .ok (elevation, azimuth) =>
      match openAt? decoder t path with
      | none => .error (.io .load (.undecodable path))
      | some w =>
        (samples decoder path w).map fun samples =>
          ⟨elevation, azimuth, (decoder.format w).bits, samples⟩ := by
  unfold decode openAt?
  cases FileName.parse path with
  | error e => rfl
  | ok angle =>
      dsimp only
      cases t.read path with
      | error fault => rfl
      | ok bytes => rfl

/-- A recording is either accepted or rejected. -/
theorem decode_cases (decoder : Decoder ω) (t : FileTree) (path : Path) :
    (∃ r, decode decoder t path = .ok r ∧ Accepted decoder t path r) ∨
      ∃ e, decode decoder t path = .error e ∧ Rejected decoder t path e := by
  rw [decode_eq]
  cases named : FileName.parse path with
  | error e => exact .inr ⟨_, rfl, .name named⟩
  | ok angle =>
      dsimp only
      cases decoded : openAt? decoder t path with
      | none => exact .inr ⟨_, rfl, .file named decoded⟩
      | some w =>
          dsimp only
          by_cases rate : (decoder.format w).sampleRate = Binaural.sampleRate
          · by_cases mono : (decoder.format w).channels = 1
            · by_cases supported : Supported (decoder.format w)
              · rw [samples_of_supported rate mono supported]
                cases found : samplesOf? decoder w with
                | none => exact .inr ⟨_, rfl, .samples named decoded rate mono supported found⟩
                | some xs =>
                    exact .inl ⟨_, rfl, named, w, decoded, rate, mono, supported, rfl, found⟩
              · rw [samples_of_not_supported rate mono supported]
                exact .inr ⟨_, rfl, .sampleFormat named decoded rate mono supported⟩
            · refine .inr ⟨_, ?_, .channels named decoded rate mono⟩
              rw [samples, if_neg (not_not.mpr rate), if_pos mono]
              rfl
          · refine .inr ⟨_, ?_, .sampleRate named decoded rate⟩
            rw [samples, if_pos rate]
            rfl

theorem decode_eq_ok_iff {r : Decoded} :
    decode decoder t path = .ok r ↔ Accepted decoder t path r := by
  constructor
  · intro given
    rcases decode_cases decoder t path with ⟨r', decoded, accepted⟩ | ⟨e, failed, -⟩
    · rw [Except.ok.inj (given.symm.trans decoded)]
      exact accepted
    · rw [failed] at given
      cases given
  · rintro ⟨named, w, decoded, rate, mono, supported, bits, found⟩
    rw [decode_eq, named]
    dsimp only
    rw [decoded]
    dsimp only
    rw [samples_of_supported rate mono supported, found, ← bits]
    rfl

theorem decode_eq_error_iff {e : CompileError Float} :
    decode decoder t path = .error e ↔ Rejected decoder t path e := by
  constructor
  · intro given
    rcases decode_cases decoder t path with ⟨r, decoded, -⟩ | ⟨e', failed, rejected⟩
    · rw [decoded] at given
      cases given
    · rw [Except.error.inj (given.symm.trans failed)]
      exact rejected
  · intro rejected
    rw [decode_eq]
    cases rejected with
    | name failed => rw [failed]
    | file named undecodable => rw [named, undecodable]
    | sampleRate named decoded wrong =>
        rw [named, decoded]
        dsimp only
        rw [samples, if_pos wrong]
        rfl
    | channels named decoded rate wrong =>
        rw [named, decoded]
        dsimp only
        rw [samples, if_neg (not_not.mpr rate), if_pos wrong]
        rfl
    | sampleFormat named decoded rate mono wrong =>
        rw [named, decoded]
        dsimp only
        rw [samples_of_not_supported rate mono wrong]
        rfl
    | samples named decoded rate mono supported undecodable =>
        rw [named, decoded]
        dsimp only
        rw [samples_of_supported rate mono supported, undecodable]
        rfl

/-! ## All files -/

/-- Recordings are decoded in turn if all are accepted. -/
theorem decodeAll_eq_ok_iff {paths : List Path} {recordings : List (Path × Decoded)} :
    decodeAll decoder t paths = .ok recordings ↔
      recordings.map Prod.fst = paths ∧ ∀ r ∈ recordings, Accepted decoder t r.1 r.2 := by
  induction paths generalizing recordings with
  | nil =>
      rw [decodeAll, Except.ok.injEq, List.map_eq_nil_iff]
      constructor
      · rintro rfl
        exact ⟨rfl, by simp⟩
      · exact fun ⟨empty, _⟩ => empty.symm
  | cons path rest ih =>
      rw [decodeAll]
      constructor
      · intro given
        split at given
        · cases given
        · rename_i r decoded
          split at given
          · cases given
          · rename_i others decodedAll
            obtain ⟨later, accepted⟩ := ih.mp decodedAll
            cases given
            exact ⟨by rw [List.map_cons, later],
              List.forall_mem_cons.mpr ⟨decode_eq_ok_iff.mp decoded, accepted⟩⟩
      · rintro ⟨paths, accepted⟩
        cases recordings with
        | nil => cases paths
        | cons r others =>
            obtain ⟨rfl, later⟩ := List.cons.inj paths
            obtain ⟨first, accepted⟩ := List.forall_mem_cons.mp accepted
            rw [decode_eq_ok_iff.mpr first, ih.mpr ⟨later, accepted⟩]

/-- The first recording that is rejected decides. -/
theorem decodeAll_eq_error_iff {paths : List Path} {e : CompileError Float} :
    decodeAll decoder t paths = .error e ↔
      ∃ before path after, paths = before ++ path :: after ∧
        (∀ p ∈ before, ∃ r, Accepted decoder t p r) ∧ Rejected decoder t path e := by
  induction paths with
  | nil => simp [decodeAll]
  | cons path rest ih =>
      rw [decodeAll]
      constructor
      · intro given
        split at given
        · rename_i failed
          cases given
          exact ⟨[], path, rest, rfl, by simp, decode_eq_error_iff.mp failed⟩
        · rename_i r decoded
          split at given
          · rename_i failed
            cases given
            obtain ⟨before, p, after, rfl, accepted, rejected⟩ := ih.mp failed
            exact ⟨path :: before, p, after, rfl,
              List.forall_mem_cons.mpr ⟨⟨r, decode_eq_ok_iff.mp decoded⟩, accepted⟩, rejected⟩
          · cases given
      · rintro ⟨before, p, after, paths, accepted, rejected⟩
        cases before with
        | nil =>
            obtain ⟨rfl, rfl⟩ := List.cons.inj paths
            rw [decode_eq_error_iff.mpr rejected]
        | cons first others =>
            obtain ⟨rfl, rfl⟩ := List.cons.inj paths
            obtain ⟨⟨r, first⟩, accepted⟩ := List.forall_mem_cons.mp accepted
            rw [decode_eq_ok_iff.mpr first, ih.mpr ⟨others, p, after, rfl, accepted, rejected⟩]

/-- Recordings of one bit depth are put together; else the first of another depth than the first
recording is refused. -/
theorem assemble_cases (bits : Nat) (recordings : List (Path × Decoded)) :
    (∀ r ∈ recordings, r.2.bits = bits) ∧
        assemble bits recordings =
          Dataset.ofMeasurements (recordings.map fun r => r.2.measurement) ∨
      ∃ before r after, recordings = before ++ r :: after ∧ (∀ q ∈ before, q.2.bits = bits) ∧
        r.2.bits ≠ bits ∧ assemble bits recordings = .error (.bitDepth r.1 bits r.2.bits) := by
  unfold assemble
  cases found : recordings.find? fun r => r.2.bits != bits with
  | none =>
      refine .inl ⟨fun r member => ?_, rfl⟩
      simpa using List.find?_eq_none.mp found r member
  | some r =>
      obtain ⟨differs, before, after, parts, same⟩ := List.find?_eq_some_iff_append.mp found
      exact .inr ⟨before, r, after, parts, fun q member => by simpa using same q member,
        by simpa using differs, rfl⟩

/-! ## Datasets -/

/-- What is wrong with recordings that make no dataset: there are none; or one is rejected, and all
before it are accepted; or all are accepted, and one is not of the depth that those before it have;
or they do not fit together. -/
inductive Fault (decoder : Decoder ω) (t : FileTree) (root : Path) :
    List Path → CompileError Float → Prop
  | noRecordings : Fault decoder t root [] (.integrity (.noRecordings root))
  | rejected {before after : List Path} {path : Path} {e : CompileError Float}
    (accepted : ∀ p ∈ before, ∃ r, Accepted decoder t p r) (rejected : Rejected decoder t path e) :
    Fault decoder t root (before ++ path :: after) e
  | bitDepth {first r : Path × Decoded} {between after : List (Path × Decoded)}
    (accepted : ∀ q ∈ first :: between ++ r :: after, Accepted decoder t q.1 q.2)
    (same : ∀ q ∈ between, q.2.bits = first.2.bits) (differs : r.2.bits ≠ first.2.bits) :
    Fault decoder t root ((first :: between ++ r :: after).map Prod.fst)
      (.integrity (.bitDepth r.1 first.2.bits r.2.bits))
  | dataset {recordings : List (Path × Decoded)} {bits : Nat} {e : IntegrityError Float}
    (accepted : ∀ q ∈ recordings, Accepted decoder t q.1 q.2)
    (same : ∀ q ∈ recordings, q.2.bits = bits)
    (refused : Dataset.ofMeasurements (recordings.map fun q => q.2.measurement) = .error e) :
    Fault decoder t root (recordings.map Prod.fst) (.integrity e)

/-- Recordings that make a dataset: they are accepted, are of one bit depth, and fit together. -/
structure Makes (decoder : Decoder ω) (t : FileTree) (paths : List Path)
    (recordings : List (Path × Decoded)) (d : Dataset Float) : Prop where
  paths_eq : recordings.map Prod.fst = paths
  accepted : ∀ q ∈ recordings, Accepted decoder t q.1 q.2
  sameDepth : ∃ bits, ∀ q ∈ recordings, q.2.bits = bits
  together : Dataset.ofMeasurements (recordings.map fun q => q.2.measurement) = .ok d

variable {paths : List Path}

/-- Recordings that were found make a dataset, or something is wrong with them. -/
theorem loadDataset_cases (found : discover t root = .ok paths) :
    (∃ d recordings, decoder.loadDataset t root = .ok d ∧ Makes decoder t paths recordings d) ∨
      ∃ e, decoder.loadDataset t root = .error e ∧ Fault decoder t root paths e := by
  unfold Decoder.loadDataset
  rw [found]
  dsimp only
  cases decodedAll : decodeAll decoder t paths with
  | error e =>
      obtain ⟨before, path, after, rfl, accepted, rejected⟩ := decodeAll_eq_error_iff.mp decodedAll
      exact .inr ⟨e, rfl, .rejected accepted rejected⟩
  | ok recordings =>
      obtain ⟨rfl, accepted⟩ := decodeAll_eq_ok_iff.mp decodedAll
      cases recordings with
      | nil => exact .inr ⟨_, rfl, .noRecordings⟩
      | cons first rest =>
          dsimp only
          rcases assemble_cases first.2.bits (first :: rest) with
            ⟨same, assembled⟩ | ⟨before, r, after, parts, same, differs, refused⟩
          · rw [assembled]
            cases together : Dataset.ofMeasurements
                ((first :: rest).map fun q => q.2.measurement) with
            | ok d => exact .inl ⟨d, first :: rest, rfl, rfl, accepted, ⟨_, same⟩, together⟩
            | error e => exact .inr ⟨_, rfl, .dataset accepted same together⟩
          · rw [refused]
            refine .inr ⟨_, rfl, ?_⟩
            -- the first recording has its own depth, so it stands before the one that differs
            cases before with
            | nil =>
                have same := (List.cons.inj parts).1
                exact absurd (congrArg (fun q => q.2.bits) same.symm) differs
            | cons q between =>
                obtain ⟨rfl, rfl⟩ := List.cons.inj parts
                exact .bitDepth accepted (List.forall_mem_cons.mp same).2 differs

theorem loadDataset_of_makes (found : discover t root = .ok paths)
    {recordings : List (Path × Decoded)} {d : Dataset Float}
    (makes : Makes decoder t paths recordings d) : decoder.loadDataset t root = .ok d := by
  obtain ⟨rfl, accepted, ⟨bits, same⟩, together⟩ := makes
  unfold Decoder.loadDataset
  rw [found]
  dsimp only
  rw [decodeAll_eq_ok_iff.mpr ⟨rfl, accepted⟩]
  cases recordings with
  | nil => exact absurd rfl (Dataset.ofMeasurements_eq_ok_iff.mp together).ne_nil
  | cons first rest =>
      dsimp only
      rcases assemble_cases first.2.bits (first :: rest) with
        ⟨-, assembled⟩ | ⟨before, r, after, parts, -, differs, -⟩
      · rw [assembled, together]
      · have member : r ∈ first :: rest := by
          rw [parts]
          exact List.mem_append_right _ List.mem_cons_self
        exact absurd ((same r member).trans (same first List.mem_cons_self).symm) differs

/-! ## Ranges of samples -/

/-- The integers of a file that is opened are numbers of as many bits as its format gives. -/
def Decoder.Fits (decoder : Decoder ω) : Prop :=
  ∀ bytes w samples, decoder.open? bytes = some w → (decoder.format w).format = .integer →
    decoder.integers? w = some samples → ∀ sample ∈ samples, FitsBits (decoder.format w).bits sample

theorem Decoder.fits_wave : wave.Fits :=
  fun _ _ _ _ _ decoded => Wave.fitsBits_of_integers? decoded

theorem exists_open_of_openAt? {w : ω} (decoded : openAt? decoder t path = some w) :
    ∃ bytes, decoder.open? bytes = some w := by
  unfold openAt? at decoded
  cases contents : t.read path with
  | error fault =>
      rw [contents] at decoded
      cases decoded
  | ok bytes =>
      rw [contents] at decoded
      exact ⟨bytes.toList, decoded⟩

/-- The samples of an accepted file of integers are exact, and in the range. -/
theorem Accepted.exact (fits : decoder.Fits) {r : Decoded} {w : ω}
    (accepted : Accepted decoder t path r)
    (decoded : openAt? decoder t path = some w) (integers : (decoder.format w).format = .integer) :
    ∃ samples, decoder.integers? w = some samples ∧
      List.Forall₂ (fun sample x => FitsBits r.bits sample ∧ IsFraction r.bits sample x) samples
        r.samples := by
  obtain ⟨-, w', decoded', -, -, supported, bits, used⟩ := accepted
  have same : w = w' := Option.some.inj (decoded.symm.trans decoded')
  subst same
  have few : (decoder.format w).bits ≤ 32 := by
    rcases supported with ⟨float, -⟩ | ⟨-, -, few⟩
    · rw [integers] at float
      cases float
    · exact few
  rw [samplesOf?, integers] at used
  obtain ⟨samples, read, normalized⟩ := Option.map_eq_some_iff.mp used
  rcases exists_open_of_openAt? decoded with ⟨bytes, opened⟩
  have fit := fits bytes w samples opened integers read
  refine ⟨samples, read, ?_⟩
  rw [bits, ← normalized, List.forall₂_map_right_iff, List.forall₂_same]
  exact fun sample member =>
    ⟨fit sample member, isFraction_normalize (by omega) (fit sample member)⟩

end Recording

/-- A sample that is refused is one of a measurement, and is not in the range. -/
theorem Dataset.Fault.of_sampleOutOfRange {α : Type} [Scalar α] {ms : List (Measurement α)}
    {elevation azimuth : Int} {index : Nat} {value : α}
    (fault : Fault ms (.sampleOutOfRange elevation azimuth index value)) :
    ∃ m ∈ ms, m.elevation = elevation ∧ m.azimuth = azimuth ∧ m.samples[index]? = some value ∧
      ¬ (-1 ≤ value ∧ value ≤ 1) := by
  cases fault with
  | @measurement before after m _ split fit misfit =>
      have member : m ∈ ms := by
        rw [split]
        exact List.mem_append_right _ List.mem_cons_self
      cases misfit with
      | @range front back value nonempty length_eq samples inRange outside =>
          refine ⟨m, member, rfl, rfl, ?_, outside⟩
          rw [samples, List.getElem?_append_right le_rfl, Nat.sub_self]
          rfl
  | layout fit flaw => cases flaw

namespace Recording

variable {ω : Type} {decoder : Decoder ω} {t t' : FileTree} {root path : Path}
  {paths : List Path}

/-- What is decoded as floats is all that can be out of range. -/
theorem Fault.of_sampleOutOfRange (fits : decoder.Fits) {elevation azimuth : Int} {index : Nat}
    {value : Float}
    (fault : Fault decoder t root paths
      (.integrity (.sampleOutOfRange elevation azimuth index value))) :
    ∃ p ∈ paths, ∃ r w, Accepted decoder t p r ∧ openAt? decoder t p = some w ∧
      (decoder.format w).format = .float ∧ r.elevation = elevation ∧ r.azimuth = azimuth ∧
      r.samples[index]? = some value := by
  generalize e_eq : CompileError.integrity
    (IntegrityError.sampleOutOfRange elevation azimuth index value) = e at fault
  cases fault with
  | noRecordings => cases e_eq
  | rejected accepted rejected =>
      cases rejected with
      | name failed => cases e_eq
      | file named undecodable => cases e_eq
      | sampleRate named decoded wrong => cases e_eq
      | channels named decoded rate wrong => cases e_eq
      | sampleFormat named decoded rate mono wrong => cases e_eq
      | samples named decoded rate mono supported undecodable => cases e_eq
  | bitDepth accepted same differs => cases e_eq
  | dataset accepted same refused =>
      cases e_eq
      rcases (Dataset.ofMeasurements_eq_error_iff.mp refused).of_sampleOutOfRange with
        ⟨m, member, elevation_eq, azimuth_eq, here, range⟩
      rcases List.mem_map.mp member with ⟨⟨p, r⟩, found, rfl⟩
      have accepted' := accepted (p, r) found
      rcases accepted'.decoded with ⟨w, decoded, -⟩
      refine ⟨p, List.mem_map_of_mem found, r, w, accepted', decoded, ?_, elevation_eq,
        azimuth_eq, here⟩
      cases format : (decoder.format w).format with
      | float => rfl
      | integer =>
          rcases accepted'.exact fits decoded format with ⟨samples, -, exact⟩
          rcases List.getElem?_eq_some_iff.mp here with ⟨inside, rfl⟩
          have fraction := (exact.get (exact.length_eq ▸ inside) inside).2
          exact absurd ⟨fraction.lower, Binary64.le_of_lt fraction.upper⟩ range

/-! ## Trees that can be read -/

theorem openAt?_of_perm (plain : t.Plain) (permuted : t.entries.Perm t'.entries) (path : Path) :
    openAt? decoder t' path = openAt? decoder t path := by
  unfold openAt?
  rw [plain.read_of_perm permuted]

theorem decodeAll_of_perm (plain : t.Plain) (permuted : t.entries.Perm t'.entries)
    (paths : List Path) : decodeAll decoder t' paths = decodeAll decoder t paths := by
  induction paths with
  | nil => rfl
  | cons path rest ih =>
      rw [decodeAll, decodeAll, decode_eq, decode_eq, openAt?_of_perm plain permuted, ih]

/-- What is loaded does not depend on the order in which directories are listed. -/
theorem loadDataset_of_perm (plain : t.Plain) (permuted : t.entries.Perm t'.entries)
    (root : Path) : decoder.loadDataset t' root = decoder.loadDataset t root := by
  unfold Decoder.loadDataset
  rw [discover_of_perm plain permuted]
  cases discover t root with
  | error e => rfl
  | ok paths =>
      dsimp only
      rw [decodeAll_of_perm plain permuted]

/-- What is found below a root: all recordings, once each, in the order of their paths. -/
structure Discovers (t : FileTree) (root : Path) (place : List String) (paths : List Path) :
    Prop where
  found : discover t root = .ok paths
  ascending : paths.Pairwise Path.Before
  distinct : paths.Nodup
  mem_iff : ∀ p, p ∈ paths ↔ ∃ contents, IsBelow t root place p contents
  named : ∀ p ∈ paths, ∃ rest, p.fileName? = some ("L" ++ rest ++ ".wav")
  contents : ∀ p contents bytes, IsBelow t root place p contents → t.read p = .ok bytes →
    bytes = contents

theorem discovers_pathsBelow {place : List String} (plain : t.Plain) (readable : Readable t root)
    (located : t.locate root = .ok place) (isDirectory : t.entry? place = some .directory) :
    Discovers t root place (pathsBelow t root place) := by
  have ascending := @pairwise_pathsBelow t root place plain
    (FileTree.text_ne_of_locate located)
  refine ⟨discover_eq plain readable located isDirectory, ascending, ?_,
    fun p => mem_pathsBelow_iff, ?_, ?_⟩
  · refine ascending.imp ?_
    intro p q before same
    rw [same] at before
    exact q.not_before_self before
  · intro p member
    rcases mem_pathsBelow_iff.mp member with ⟨contents, below⟩
    exact below.fileName? plain
  · exact fun p contents bytes below read => below.contents_eq plain located isDirectory read

/-- What becomes of the recordings that were found. -/
structure Loads (decoder : Decoder ω) (t : FileTree) (root : Path) (paths : List Path)
    (answer : Except (CompileError Float) (Dataset Float)) : Prop where
  succeeds_iff : (∃ d, answer = .ok d) ↔
    paths ≠ [] ∧ ∃ d recordings, Makes decoder t paths recordings d
  /-- A dataset has one entry for each recording, at the angle of its name. -/
  entries : ∀ d, answer = .ok d → ∃ recordings, Makes decoder t paths recordings d ∧
    (d.grid.entries.map Prod.fst).Nodup ∧
    d.grid.entries.Perm
      (recordings.map fun q => ((q.2.elevation, q.2.azimuth), q.2.samples))
  /-- Integers that are used fit their bits, and are used as fractions of the full scale. -/
  exact : ∀ p ∈ paths, ∀ r w, Accepted decoder t p r → openAt? decoder t p = some w →
    (decoder.format w).format = .integer → ∃ samples, decoder.integers? w = some samples ∧
      List.Forall₂ (fun sample x => FitsBits r.bits sample ∧ IsFraction r.bits sample x) samples
        r.samples
  /-- So only floats can be out of range. -/
  range : ∀ elevation azimuth index value,
    answer = .error (.integrity (.sampleOutOfRange elevation azimuth index value)) →
    ∃ p ∈ paths, ∃ r w, Accepted decoder t p r ∧ openAt? decoder t p = some w ∧
      (decoder.format w).format = .float ∧ r.elevation = elevation ∧ r.azimuth = azimuth ∧
      r.samples[index]? = some value
  fails : ∀ e, answer = .error e → Fault decoder t root paths e

theorem loads (fits : decoder.Fits) (found : discover t root = .ok paths) :
    Loads decoder t root paths (decoder.loadDataset t root) := by
  have fails (e : CompileError Float) (failed : decoder.loadDataset t root = .error e) :
      Fault decoder t root paths e := by
    rcases loadDataset_cases found with ⟨d, recordings, loaded, -⟩ | ⟨e', failed', fault⟩
    · rw [loaded] at failed
      cases failed
    · rw [Except.error.inj (failed.symm.trans failed')]
      exact fault
  have makes (d : Dataset Float) (loaded : decoder.loadDataset t root = .ok d) :
      ∃ recordings, Makes decoder t paths recordings d := by
    rcases loadDataset_cases found with ⟨d', recordings, loaded', makes⟩ | ⟨e, failed, -⟩
    · rw [Except.ok.inj (loaded.symm.trans loaded')]
      exact ⟨recordings, makes⟩
    · rw [failed] at loaded
      cases loaded
  refine ⟨⟨?_, ?_⟩, ?_, ?_, ?_, fails⟩
  · rintro ⟨d, loaded⟩
    obtain ⟨recordings, made⟩ := makes d loaded
    refine ⟨?_, d, recordings, made⟩
    rintro rfl
    have comprises := Dataset.ofMeasurements_eq_ok_iff.mp made.together
    rw [List.map_eq_nil_iff.mp made.paths_eq] at comprises
    exact comprises.ne_nil rfl
  · rintro ⟨-, d, recordings, made⟩
    exact ⟨d, loadDataset_of_makes found made⟩
  · intro d loaded
    obtain ⟨recordings, made⟩ := makes d loaded
    have comprises := Dataset.ofMeasurements_eq_ok_iff.mp made.together
    refine ⟨recordings, made, comprises.ascending.nodup_angles, ?_⟩
    have entries := comprises.entries
    rw [List.map_map] at entries
    exact entries
  · exact fun p _ r w accepted decoded integers => accepted.exact fits decoded integers
  · exact fun elevation azimuth index value failed => (fails _ failed).of_sampleOutOfRange fits

/-- Below a root that can be read, all recordings are found in order. Loading them is exact with any
decoder whose integers fit their bits, as those of WAVE files do. The order in which directories are
listed has no part in either. -/
theorem loadDataset_of_readable (plain : t.Plain) (readable : Readable t root) :
    ∃ place paths, t.locate root = .ok place ∧ Discovers t root place paths ∧
      (∀ t' : FileTree, t.entries.Perm t'.entries → discover t' root = .ok paths) ∧
      (∀ {ω : Type} (decoder : Decoder ω),
        (decoder.Fits → Loads decoder t root paths (decoder.loadDataset t root)) ∧
        ∀ t' : FileTree, t.entries.Perm t'.entries →
          decoder.loadDataset t' root = decoder.loadDataset t root) ∧
      Loads .wave t root paths (loadDataset t root) ∧
      ∀ t' : FileTree, t.entries.Perm t'.entries →
        loadDataset t' root = loadDataset t root := by
  rcases readable.listed with ⟨found, listed⟩
  rcases FileTree.list_eq_ok_iff.mp listed with ⟨place, located, isDirectory, -⟩
  have discovers := discovers_pathsBelow plain readable located isDirectory
  refine ⟨place, _, located, discovers, fun t' permuted => ?_, fun decoder => ⟨fun fits => ?_, ?_⟩,
    ?_, ?_⟩
  · rw [discover_of_perm plain permuted, discovers.found]
  · exact loads fits discovers.found
  · exact fun t' permuted => loadDataset_of_perm plain permuted root
  · exact loads Decoder.fits_wave discovers.found
  · exact fun t' permuted => loadDataset_of_perm plain permuted root

/-- The bytes of a file of one sample in 16 bits, up to the sample. -/
def oneSampleHeader : List UInt8 :=
  [0x52, 0x49, 0x46, 0x46, 38, 0, 0, 0, 0x57, 0x41, 0x56, 0x45,
    0x66, 0x6d, 0x74, 0x20, 16, 0, 0, 0, 1, 0, 1, 0, 0x44, 0xac, 0, 0, 0x88, 0x58, 1, 0,
    2, 0, 16, 0, 0x64, 0x61, 0x74, 0x61, 2, 0, 0, 0]

/-- The file of a sample with these bytes. -/
def oneSample (low high : UInt8) : ByteArray := ⟨(oneSampleHeader ++ [low, high]).toArray⟩

/-- The same file once it is opened. -/
def oneSampleWave (low high : UInt8) : Wave := ⟨⟨1, 44100, .integer, 16, 2⟩, 1, [low, high]⟩

theorem ofBytes?_oneSample (low high : UInt8) :
    Wave.ofBytes? (oneSampleHeader ++ [low, high]) = some (oneSampleWave low high) := by
  have riff : (oneSampleHeader ++ [low, high]).take 4 = Wave.word "RIFF" := by rfl
  have wave : ((oneSampleHeader ++ [low, high]).drop 8).take 4 = Wave.word "WAVE" := by rfl
  have described :
      Wave.readFormat? (Wave.littleEndian [16, 0, 0, 0]) (oneSampleHeader.drop 20 ++ [low, high]) =
        some (⟨1, 44100, .integer, 16, 2⟩, 16) := by
    simp [Wave.readFormat?, Wave.plainFormat?, Wave.numberAt, Wave.littleEndian, oneSampleHeader]
  have format : Wave.readChunks? none ((oneSampleHeader ++ [low, high]).drop 12) =
      Wave.readChunks? (some ⟨1, 44100, .integer, 16, 2⟩)
        [0x64, 0x61, 0x74, 0x61, 2, 0, 0, 0, low, high] := by
    change Wave.readChunks? none (0x66 :: 0x6d :: 0x74 :: 0x20 :: 16 :: 0 :: 0 :: 0 ::
      (oneSampleHeader.drop 20 ++ [low, high])) = _
    rw [Wave.readChunks?, described]
    rfl
  have data : Wave.readChunks? (some ⟨1, 44100, .integer, 16, 2⟩)
      [0x64, 0x61, 0x74, 0x61, 2, 0, 0, 0, low, high] = some (oneSampleWave low high) := by
    rw [Wave.readChunks?]
    rfl
  rw [Wave.ofBytes?, if_pos ⟨riff, wave⟩, format, data]

theorem openAt?_of_oneSample {low high : UInt8}
    (contents : t.read path = .ok (oneSample low high)) :
    openAt? .wave t path = some (oneSampleWave low high) := by
  have bytes : (oneSample low high).toList = oneSampleHeader ++ [low, high] := by cbv
  rw [openAt?, contents]
  dsimp only
  rw [bytes]
  exact ofBytes?_oneSample low high

theorem accepted_of_oneSample {low high : UInt8} {elevation azimuth sample : Int}
    (named : FileName.parse path = .ok (elevation, azimuth))
    (contents : t.read path = .ok (oneSample low high))
    (value : (oneSampleWave low high).integers? = some [sample]) :
    Accepted .wave t path ⟨elevation, azimuth, 16, [normalize 16 sample]⟩ := by
  have supported : Supported ⟨1, 44100, .integer, 16, 2⟩ := .inr ⟨rfl, by decide, by decide⟩
  refine ⟨named, _, openAt?_of_oneSample contents, rfl, rfl, supported, rfl, ?_⟩
  change ((oneSampleWave low high).integers?.map fun samples => samples.map (normalize 16)) = _
  rw [value]
  rfl

/-- A tree that lists the higher of two elevations first. Its recordings are one half of the full
scale, and the least sample that there is. -/
def twoElevations : FileTree :=
  ⟨[(["hrtf"], .directory), (["hrtf", "elev10"], .directory),
    (["hrtf", "elev10", "L10e000a.wav"], .file (oneSample 0x00 0x80)),
    (["hrtf", "elev0"], .directory),
    (["hrtf", "elev0", "L0e000a.wav"], .file (oneSample 0x00 0x40))]⟩

theorem twoElevations_plain : twoElevations.Plain := by
  have noSlash : ∀ e ∈ twoElevations.entries,
      (e.1.getLast?.all fun name => !name.toList.contains '/') = true := by decide
  refine ⟨by decide, fun e member name last slash => ?_⟩
  have absent := noSlash e member
  rw [last] at absent
  simp [slash] at absent

theorem list_twoElevations :
    twoElevations.list ⟨"hrtf"⟩ = .ok [("elev10", .directory), ("elev0", .directory)] := by
  rfl

theorem twoElevations_readable : Readable twoElevations ⟨"hrtf"⟩ := by
  refine ⟨⟨_, list_twoElevations⟩, fun found listed e member elevation => ?_⟩
  rw [← Except.ok.inj (list_twoElevations.symm.trans listed)] at member
  rcases List.mem_pair.mp member with rfl | rfl
  · exact ⟨[("L10e000a.wav", .file (oneSample 0x00 0x80))], by rfl⟩
  · exact ⟨[("L0e000a.wav", .file (oneSample 0x00 0x40))], by rfl⟩

theorem discover_twoElevations :
    discover twoElevations ⟨"hrtf"⟩ =
      .ok [⟨"hrtf/elev0/L0e000a.wav"⟩, ⟨"hrtf/elev10/L10e000a.wav"⟩] := by
  have single (name : String) : sortNames [name] = [name] := List.mergeSort_singleton name
  have sorted : sortNames ["elev10", "elev0"] = ["elev0", "elev10"] := by
    simp [sortNames, List.mergeSort]
  have directories : entries twoElevations ⟨"hrtf"⟩ isElevation =
      .ok [⟨"hrtf/elev0"⟩, ⟨"hrtf/elev10"⟩] := by
    rw [entries, list_twoElevations]
    change Except.ok ((sortNames ["elev10", "elev0"]).map _) = _
    rw [sorted]
    rfl
  have lower : entries twoElevations ⟨"hrtf/elev0"⟩ isRecording =
      .ok [⟨"hrtf/elev0/L0e000a.wav"⟩] := by
    change Except.ok ((sortNames ["L0e000a.wav"]).map _) = _
    rw [single]
    rfl
  have upper : entries twoElevations ⟨"hrtf/elev10"⟩ isRecording =
      .ok [⟨"hrtf/elev10/L10e000a.wav"⟩] := by
    change Except.ok ((sortNames ["L10e000a.wav"]).map _) = _
    rw [single]
    rfl
  rw [discover, directories]
  dsimp only
  rw [inDirectories, lower, inDirectories, upper]
  rfl

/-- Both recordings are found in order and loaded, each as the exact fraction that it is. -/
theorem loadDataset_of_readable_two :
    let paths : List Path := [⟨"hrtf/elev0/L0e000a.wav"⟩, ⟨"hrtf/elev10/L10e000a.wav"⟩]
    twoElevations.Plain ∧ Readable twoElevations ⟨"hrtf"⟩ ∧
      Discovers twoElevations ⟨"hrtf"⟩ ["hrtf"] paths ∧
      Loads .wave twoElevations ⟨"hrtf"⟩ paths (loadDataset twoElevations ⟨"hrtf"⟩) ∧
      (∃ d, loadDataset twoElevations ⟨"hrtf"⟩ = .ok d) ∧
      ∃ half least : Float,
        (∃ d, Makes .wave twoElevations paths
          [(⟨"hrtf/elev0/L0e000a.wav"⟩, ⟨0, 0, 16, [half]⟩),
            (⟨"hrtf/elev10/L10e000a.wav"⟩, ⟨10, 0, 16, [least]⟩)] d) ∧
        IsFraction 16 16384 half ∧ IsFraction 16 (-32768) least := by
  intro paths
  rcases loadDataset_of_readable twoElevations_plain twoElevations_readable with
    ⟨place, found, located, discovers, -, -, loads, -⟩
  have there : twoElevations.locate ⟨"hrtf"⟩ = .ok ["hrtf"] := by rfl
  cases Except.ok.inj (there.symm.trans located)
  cases Except.ok.inj (discover_twoElevations.symm.trans discovers.found)
  have lower := @accepted_of_oneSample twoElevations ⟨"hrtf/elev0/L0e000a.wav"⟩ 0x00 0x40 0 0 16384
    rfl rfl rfl
  have upper := @accepted_of_oneSample twoElevations ⟨"hrtf/elev10/L10e000a.wav"⟩ 0x00 0x80 10 0
    (-32768) rfl rfl rfl
  have makes : ∃ d, Makes .wave twoElevations paths
      [(⟨"hrtf/elev0/L0e000a.wav"⟩, ⟨0, 0, 16, [normalize 16 16384]⟩),
        (⟨"hrtf/elev10/L10e000a.wav"⟩, ⟨10, 0, 16, [normalize 16 (-32768)]⟩)] d := by
    refine ⟨_, rfl, ?_, ⟨16, ?_⟩, rfl⟩
    · exact List.forall_mem_cons.mpr ⟨lower, List.forall_mem_singleton.mpr upper⟩
    · exact List.forall_mem_cons.mpr ⟨rfl, List.forall_mem_singleton.mpr rfl⟩
  rcases loads.exact _ List.mem_cons_self _ _ lower (openAt?_of_oneSample rfl) rfl with
    ⟨_, read, half⟩
  cases read
  rcases loads.exact _ (List.mem_cons_of_mem _ List.mem_cons_self) _ _ upper
    (openAt?_of_oneSample rfl) rfl with ⟨_, read, least⟩
  cases read
  have loaded : ∃ d, loadDataset twoElevations ⟨"hrtf"⟩ = .ok d := by
    refine loads.succeeds_iff.mpr ⟨List.cons_ne_nil _ _, ?_⟩
    rcases makes with ⟨d, made⟩
    exact ⟨d, _, made⟩
  exact ⟨twoElevations_plain, twoElevations_readable, discovers, loads, loaded, _, _, makes,
    (List.forall₂_cons.mp half).1.2, (List.forall₂_cons.mp least).1.2⟩

end Recording

end Binaural
