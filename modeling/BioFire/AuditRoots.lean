import BioFire.MerkleRoot

/-!
# The roots of a growing audit chain

The leaves of the tree are the hashes of the entries. Every entry behind the first one
hashes the hash of the entry before it, and no text that is hashed has 64 bytes, as the
buffers of the inner nodes have.

* `chain_sealed`: what is hashed for the entries of a chain;
* `leaves_nodup`: no leaf occurs twice;
* `roots_differ`: the roots after different numbers of appends differ.
-/

namespace BioFire.AuditChain

/-- What `toISOString` writes: 24 units, or 27 where the year has a sign. -/
def ClockText (timestamp : JSString) : Prop :=
  (timestamp.length = 24 ∨ timestamp.length = 27) ∧ ∀ c ∈ timestamp, c < 128

/-- The text that the genesis entry carries the hash of. -/
def genesisText (genesis : Genesis) : JSString :=
  hashedText (.finite 0) genesis.hashTimestamp (js "GENESIS_BLOCK") (js "System Core") []
    (some genesisPreviousHash)

variable (sha256 : Bytes → Digest)

/-- Everything that is hashed for the entries of a chain and for the roots of the chains
that it begins with. -/
def chainInputs (genesis : Genesis) (chain : List AuditEntry) : Set Bytes :=
  {textEncode (genesisText genesis)} ∪ hashedBytes chain ∪
    {buffer | ∃ k, buffer ∈ hashedNodes sha256 ((chain.take k).map leafHash)}

/-- An entry carries the hash of a known text of another length than 64 bytes, which
ends with the previous hash behind a hyphen. -/
def Sealed (known : Set Bytes) (entry : AuditEntry) : Prop :=
  ∃ start previous : JSString, entry.previousHash = some previous ∧
    (∀ c ∈ previous, c < 128 ∧ c ≠ 45) ∧
    textEncode (start ++ 45 :: previous) ∈ known ∧
    (textEncode (start ++ 45 :: previous)).length ≠ 64 ∧
    entry.hash = js "0x" ++ bytesToHex (sha256 (textEncode (start ++ 45 :: previous))).1

variable {sha256}

/-! ## Texts -/

theorem textEncode_length_ascii {s : JSString} (h : ∀ c ∈ s, c < 128) :
    (textEncode s).length = s.length := by
  induction s with
  | nil => rfl
  | cons c s ih =>
    rw [List.forall_mem_cons] at h
    rw [textEncode_cons h.1, List.length_cons, List.length_cons, ih h.2]

theorem hex_facts {bs : Bytes} {c : UInt16} (hc : c ∈ js "0x" ++ bytesToHex bs) :
    c < 128 ∧ c ≠ 45 := by
  have hdigit : ∀ i : Fin 16, hexDigit i < 128 ∧ hexDigit i ≠ 45 := by decide
  rcases List.mem_append.mp hc with hc | hc
  · have hmark : (js "0x").all (fun c => c < 128 && c != 45) = true := by decide
    have hunit := List.all_eq_true.mp hmark c hc
    rwa [Bool.and_eq_true, decide_eq_true_iff, bne_iff_ne] at hunit
  · obtain ⟨i, rfl⟩ := exists_hexDigit_of_mem hc
    exact hdigit i

theorem hashedText_eq (idx : JSNumber) (timestamp action actor details previous : JSString) :
    hashedText idx timestamp action actor details (some previous) =
      (numberString idx ++ js "-" ++ timestamp ++ js "-" ++ action ++ js "-" ++ actor ++ js "-" ++
        details) ++ 45 :: previous := by
  rw [hashedText, List.append_assoc _ (js "-")]
  rfl

theorem lt_length_of_hash (start : JSString) (digest : Digest) :
    64 < (textEncode (start ++ 45 :: (js "0x" ++ bytesToHex digest.1))).length := by
  have hascii : ∀ c ∈ 45 :: (js "0x" ++ bytesToHex digest.1), c < 128 := by
    intro c hc
    rcases List.mem_cons.mp hc with rfl | hc
    · decide
    · exact (hex_facts hc).1
  rw [textEncode_append rfl, List.length_append, textEncode_length_ascii hascii, List.length_cons,
    List.length_append, length_bytesToHex, digest.2]
  omega

theorem length_genesisText {genesis : Genesis} (hclock : ClockText genesis.hashTimestamp) :
    (textEncode (genesisText genesis)).length ≠ 64 := by
  obtain ⟨hlength, hascii⟩ := hclock
  have hzero : numberString (.finite 0) = js "0" := by decide
  have htext : genesisText genesis = js "0-" ++ genesis.hashTimestamp ++
      js "-GENESIS_BLOCK-System Core--0x0000000000000000" := by
    rw [genesisText, hashedText, hzero]
    simp only [List.append_assoc]
    rfl
  have hall : ∀ c ∈ genesisText genesis, c < 128 := by
    rw [htext]
    intro c hc
    rcases List.mem_append.mp hc with hc | hc
    · rcases List.mem_append.mp hc with hc | hc
      · exact ascii_of_all (by decide) c hc
      · exact hascii c hc
    · exact ascii_of_all (by decide) c hc
  have hends : (js "0-").length = 2 ∧
      (js "-GENESIS_BLOCK-System Core--0x0000000000000000").length = 46 := by decide
  rw [textEncode_length_ascii hall, htext, List.length_append, List.length_append, hends.1, hends.2]
  omega

/-! ## Chains -/

variable (sha256) in
theorem exists_auditRun_cons (genesis : Genesis) {db : Option (List AuditRow)}
    (hdb : loadFromDB db = []) (calls : List AppendCall) :
    ∃ rest, (auditRun sha256 genesis db calls).memoryChain =
      genesisEntry sha256 genesis :: rest := by
  induction calls using List.reverseRecOn with
  | nil => exact ⟨[], initChain_memoryChain hdb⟩
  | append_singleton calls call ih =>
    obtain ⟨rest, hrest⟩ := ih
    rw [auditRun, Runs.run_concat, ← auditRun, appendLog, hrest]
    exact ⟨_, rfl⟩

theorem auditRun_take (genesis : Genesis) {db : Option (List AuditRow)}
    (hdb : loadFromDB db = []) (calls : List AppendCall) (i : ℕ) :
    (auditRun sha256 genesis db (calls.take i)).memoryChain =
      (auditRun sha256 genesis db calls).memoryChain.take (1 + (calls.take i).length) := by
  have hprefix : ∀ (s : AuditState) (later : List AppendCall),
      s.memoryChain <+: (Runs.run (appendLog sha256) s later).memoryChain := by
    intro s later
    induction later using List.reverseRecOn with
    | nil => exact List.prefix_rfl
    | append_singleton later call ih =>
      rw [Runs.run_concat]
      exact ih.trans (List.prefix_append _ _)
  have hrun : (auditRun sha256 genesis db (calls.take i)).memoryChain <+:
      (auditRun sha256 genesis db calls).memoryChain := by
    conv_rhs => rw [← List.take_append_drop i calls, auditRun, Runs.run_append]
    exact hprefix _ _
  rw [← auditRun_length genesis hdb]
  exact List.prefix_iff_eq_take.mp hrun

variable (sha256) in
/-- **The entries of a chain are sealed** under the texts that were hashed for them. -/
theorem chain_sealed {genesis : Genesis} {db : Option (List AuditRow)} (hdb : loadFromDB db = [])
    (hclock : ClockText genesis.hashTimestamp) (calls : List AppendCall) :
    ∀ e ∈ (auditRun sha256 genesis db calls).memoryChain,
      Sealed sha256
        (chainInputs sha256 genesis (auditRun sha256 genesis db calls).memoryChain) e := by
  have hintact := @intact_auditRun sha256 genesis db hdb calls
  obtain ⟨rest, hchain⟩ := exists_auditRun_cons sha256 genesis hdb calls
  rw [hchain] at hintact ⊢
  have hashOf : ∀ e ∈ genesisEntry sha256 genesis :: rest, ∃ digest : Digest,
      e.hash = js "0x" ++ bytesToHex digest.1 := by
    intro e he
    rcases List.mem_cons.mp he with rfl | he
    · exact ⟨_, rfl⟩
    · exact ⟨_, (hintact.recomputes e he).symm⟩
  intro e he
  rcases List.mem_cons.mp he with rfl | he
  · have htext := hashedText_eq (.finite 0) genesis.hashTimestamp (js "GENESIS_BLOCK")
      (js "System Core") [] genesisPreviousHash
    have hlength := length_genesisText hclock
    rw [genesisText, htext] at hlength
    refine ⟨_, genesisPreviousHash, rfl, ?_, ?_, hlength, ?_⟩
    · have hzeros : genesisPreviousHash = js "0x" ++ bytesToHex (List.replicate 8 0) := rfl
      rw [hzeros]
      exact fun c hc => hex_facts hc
    · rw [← htext]
      exact Or.inl (Or.inl rfl)
    · rw [← htext]
      rfl
  · obtain ⟨p, hp, hprevious⟩ := HashChain.exists_prev hintact.linked he
    obtain ⟨digest, hdigest⟩ := hashOf p hp
    have htext := hashedText_eq e.idx e.timestamp e.action e.actor e.details p.hash
    rw [← hprevious, ← AuditEntry.text] at htext
    have hmem : textEncode e.text ∈
        chainInputs sha256 genesis (genesisEntry sha256 genesis :: rest) :=
      Or.inl (Or.inr ⟨e, he, rfl⟩)
    have hhash := hintact.recomputes e he
    rw [AuditEntry.recomputed, calculateHash, ← AuditEntry.text] at hhash
    rw [htext] at hmem hhash
    refine ⟨_, p.hash, hprevious, ?_, hmem, ?_, hhash.symm⟩
    · rw [hdigest]
      exact fun c hc => hex_facts hc
    · rw [hdigest]
      exact (lt_length_of_hash _ digest).ne'

theorem Sealed.leafHash {known : Set Bytes} {e : AuditEntry} (h : Sealed sha256 known e) :
    ∃ text ∈ known, text.length ≠ 64 ∧ leafHash e = (sha256 text).1 ∧
      e.hash = js "0x" ++ bytesToHex (leafHash e) := by
  obtain ⟨start, previous, -, -, hmem, hlength, hhash⟩ := h
  have hleaf : AuditChain.leafHash e = (sha256 (textEncode (start ++ 45 :: previous))).1 := by
    rw [AuditChain.leafHash, hhash, removeHexPrefix_append, parsedBytes_bytesToHex]
  exact ⟨_, hmem, hlength, hleaf, by rw [hhash, hleaf]⟩

theorem Sealed.previousHash_eq {known : Set Bytes} {e e' : AuditEntry} (h : Sealed sha256 known e)
    (h' : Sealed sha256 known e') (hinj : Set.InjOn sha256 known) (heq : e.hash = e'.hash) :
    e.previousHash = e'.previousHash := by
  obtain ⟨start, previous, hprevious, hfacts, hmem, -, hhash⟩ := h
  obtain ⟨start', previous', hprevious', hfacts', hmem', -, hhash'⟩ := h'
  rw [hhash, hhash'] at heq
  have hdigest := Subtype.ext (bytesToHex_injective (List.append_cancel_left heq))
  have hlast := (textEncode_last_inj (c := 45) (by decide) (fun u hu => (hfacts u hu).1)
    (fun u hu => (hfacts' u hu).1) (fun hu => (hfacts 45 hu).2 rfl)
    (fun hu => (hfacts' 45 hu).2 rfl) (hinj hmem hmem' hdigest)).2
  rw [hprevious, hprevious', hlast]

/-- **No leaf occurs twice.** -/
theorem leaves_nodup {genesis : Genesis} {db : Option (List AuditRow)} (hdb : loadFromDB db = [])
    (hclock : ClockText genesis.hashTimestamp) (calls : List AppendCall)
    (hinj : Set.InjOn sha256
      (chainInputs sha256 genesis (auditRun sha256 genesis db calls).memoryChain)) :
    ((auditRun sha256 genesis db calls).memoryChain.map leafHash).Nodup := by
  have hsealed := chain_sealed sha256 hdb hclock calls
  have hintact := @intact_auditRun sha256 genesis db hdb calls
  obtain ⟨rest, hchain⟩ := exists_auditRun_cons sha256 genesis hdb calls
  have hashes : ((auditRun sha256 genesis db calls).memoryChain.map AuditEntry.hash).Nodup := by
    refine HashChain.keys_nodup hintact.linked ?_ fun e he e' he' heq =>
      (hsealed e he).previousHash_eq (hsealed e' he') hinj heq
    intro first hfirst e he hprevious
    rw [hchain, List.head?_cons, Option.mem_def, Option.some.injEq] at hfirst
    obtain ⟨_, -, -, hleaf, hhash⟩ := (hsealed e he).leafHash
    rw [← hfirst, hhash, hleaf] at hprevious
    have hlength := congrArg List.length (Option.some.inj hprevious)
    rw [List.length_append, length_bytesToHex, (sha256 _).2] at hlength
    exact absurd hlength (by decide)
  have hmap : (auditRun sha256 genesis db calls).memoryChain.map AuditEntry.hash =
      ((auditRun sha256 genesis db calls).memoryChain.map leafHash).map
        fun bytes => js "0x" ++ bytesToHex bytes := by
    rw [List.map_map]
    refine List.map_congr_left fun e he => ?_
    obtain ⟨_, -, -, -, hhash⟩ := (hsealed e he).leafHash
    exact hhash
  rw [hmap] at hashes
  exact hashes.of_map

/-- **Every append changes the root**: the roots after different numbers of appends
differ. -/
theorem roots_differ (sha256 : Bytes → Digest) (genesis : Genesis) {db : Option (List AuditRow)}
    (hdb : loadFromDB db = []) (hclock : ClockText genesis.hashTimestamp) (calls : List AppendCall)
    (hinj : Set.InjOn sha256
      (chainInputs sha256 genesis (auditRun sha256 genesis db calls).memoryChain)) {i j : ℕ}
    (hi : i ≤ calls.length) (hj : j ≤ calls.length) (hij : i ≠ j) :
    getMerkleRoot sha256 (auditRun sha256 genesis db (calls.take i)).memoryChain ≠
      getMerkleRoot sha256 (auditRun sha256 genesis db (calls.take j)).memoryChain := by
  intro hroot
  have hroot := getMerkleRoot_inj hroot
  have hnodup := leaves_nodup hdb hclock calls hinj
  have hsealed := chain_sealed sha256 hdb hclock calls
  have hlength := @auditRun_length sha256 genesis db hdb calls
  rw [auditRun_take genesis hdb, auditRun_take genesis hdb, List.length_take_of_le hi,
    List.length_take_of_le hj] at hroot
  generalize (auditRun sha256 genesis db calls).memoryChain = chain at *
  have hleaves : ∀ k, ∀ h ∈ (chain.take k).map leafHash, h.length = 32 := by
    intro k h hmem
    obtain ⟨e, he, rfl⟩ := List.mem_map.mp hmem
    obtain ⟨text, -, -, hleaf, -⟩ := (hsealed e (List.mem_of_mem_take he)).leafHash
    rw [hleaf, (sha256 text).2]
  have hinner : ∀ k l, ∀ combined ∈ hashedNodes sha256 ((chain.take k).map leafHash),
      (sha256 combined).1 ∉ (chain.take l).map leafHash := by
    intro k l combined hcombined hmem
    obtain ⟨e, he, heq⟩ := List.mem_map.mp hmem
    obtain ⟨text, htext, hlength, hleaf, -⟩ := (hsealed e (List.mem_of_mem_take he)).leafHash
    have hdigest : sha256 text = sha256 combined := Subtype.ext (hleaf.symm.trans heq)
    have hsame := hinj htext (Or.inr ⟨k, hcombined⟩) hdigest
    exact hlength (hsame ▸ length_of_mem_hashedNodes (hleaves k) hcombined)
  have htake : ∀ k, ((chain.take k).map leafHash).Nodup := by
    intro k
    rw [List.map_take]
    exact hnodup.sublist (List.take_sublist _ _)
  have hdistinct : Distinct sha256 ((chain.take (1 + i)).map leafHash)
      ((chain.take (1 + j)).map leafHash) := by
    refine ⟨htake _, htake _, ?_⟩
    rintro combined (hmem | hmem)
    · exact ⟨hinner _ _ combined hmem, hinner _ _ combined hmem⟩
    · exact ⟨hinner _ _ combined hmem, hinner _ _ combined hmem⟩
  have hequal := root_binding_of_distinct (hleaves _) (hleaves _) hdistinct
    (hinj.mono (Set.union_subset (fun buffer hbuffer => Or.inr ⟨1 + i, hbuffer⟩)
      fun buffer hbuffer => Or.inr ⟨1 + j, hbuffer⟩)) hroot
  have hcount := congrArg List.length hequal
  rw [List.length_map, List.length_map, List.length_take, List.length_take, hlength] at hcount
  omega

/-! ## Three appends -/

/-- The call of the sample, one and two seconds later. -/
def threeCalls : List AppendCall :=
  [sampleCall, { sampleCall with timestamp := js "2024-01-01T00:00:02.000Z" },
    { sampleCall with timestamp := js "2024-01-01T00:00:03.000Z" }]

/-- SHA-256 of the texts of the second and the third appended entry. -/
def secondDigest : Digest :=
  ⟨[0xdb, 0x8c, 0xdd, 0x3e, 0x36, 0x33, 0x8a, 0x4e, 0x79, 0x83, 0x79,
    0xcf, 0x65, 0xed, 0x26, 0x8c, 0x7c, 0x5e, 0x5f, 0xa1, 0xe5, 0x83,
    0xf1, 0x2b, 0xe0, 0xf1, 0xa2, 0xf8, 0x9b, 0xdd, 0xae, 0xe3], rfl⟩

def thirdDigest : Digest :=
  ⟨[0x02, 0x6a, 0x60, 0xc5, 0x71, 0xeb, 0xec, 0xd8, 0x50, 0xcf, 0xd0,
    0x52, 0x86, 0xca, 0xc6, 0x34, 0x79, 0x0f, 0x2b, 0x88, 0x73, 0x47,
    0x67, 0x6d, 0x23, 0x55, 0x0b, 0xbb, 0xed, 0x4f, 0x25, 0x83], rfl⟩

/-- SHA-256 of the buffers of the levels. -/
def copiedPairDigest : Digest :=
  ⟨[0xd4, 0x65, 0x46, 0x8f, 0x91, 0x00, 0x2e, 0x3c, 0x57, 0x9f, 0x31,
    0xb5, 0x95, 0x1f, 0x20, 0x2a, 0x63, 0x13, 0xb3, 0x0b, 0xe4, 0x3f,
    0x46, 0xdc, 0x1a, 0x4e, 0xdc, 0x1f, 0xb9, 0x7f, 0x63, 0x26], rfl⟩

def threeRootDigest : Digest :=
  ⟨[0x78, 0x16, 0x31, 0x4c, 0xe0, 0x1c, 0x64, 0x7d, 0x58, 0x69, 0x01,
    0x28, 0xbd, 0x21, 0xa3, 0xcc, 0x38, 0xad, 0xcb, 0x9a, 0xb5, 0x4a,
    0x17, 0xbb, 0x35, 0x53, 0x4f, 0x00, 0xfd, 0x5a, 0x3e, 0xff], rfl⟩

def lastPairDigest : Digest :=
  ⟨[0x9a, 0x42, 0x7f, 0x8e, 0x24, 0xfd, 0x5d, 0xc7, 0x46, 0xba, 0xb4,
    0x63, 0x4d, 0xf9, 0x1e, 0xfd, 0xe5, 0x87, 0xbb, 0x29, 0x10, 0xa8,
    0xa5, 0xdf, 0xb6, 0xa9, 0x67, 0x45, 0xa3, 0x47, 0x73, 0x4c], rfl⟩

def fourRootDigest : Digest :=
  ⟨[0xd4, 0xf6, 0x7a, 0x77, 0x3d, 0x21, 0x3e, 0x41, 0x42, 0x03, 0xfe,
    0xbb, 0x16, 0x54, 0xc1, 0xd9, 0x4f, 0xc7, 0x38, 0xa2, 0x4f, 0xbd,
    0x67, 0xaa, 0xb1, 0x80, 0x7f, 0x55, 0xf3, 0x53, 0xd3, 0xe9], rfl⟩

/-- SHA-256 on the texts of the chain and on the buffers of its roots. -/
def rootTable : List (Bytes × Digest) :=
  [(textEncode (genesisText sampleGenesis), genesisDigest), (textEncode appendedText, appendedDigest),
    (textEncode (js "1-2024-01-01T00:00:02.000Z-LOGIN-FAILED-alice-bad password-0x" ++
      bytesToHex appendedDigest.1), secondDigest),
    (textEncode (js "2-2024-01-01T00:00:03.000Z-LOGIN-FAILED-alice-bad password-0x" ++
      bytesToHex secondDigest.1), thirdDigest),
    (genesisDigest.1 ++ appendedDigest.1, leftDigest),
    (secondDigest.1 ++ secondDigest.1, copiedPairDigest),
    (leftDigest.1 ++ copiedPairDigest.1, threeRootDigest),
    (secondDigest.1 ++ thirdDigest.1, lastPairDigest),
    (leftDigest.1 ++ lastPairDigest.1, fourRootDigest)]

def rootSha256 (bytes : Bytes) : Digest :=
  ((rootTable.find? fun e => e.1 = bytes).map Prod.snd).getD signatureDigest

/-- The texts, and the buffers. -/
def rootInputs : List Bytes := rootTable.map Prod.fst

theorem rootSha256_inputs : rootInputs.map rootSha256 = rootTable.map Prod.snd := by
  decide +kernel

theorem injOn_rootInputs : Set.InjOn rootSha256 {text | text ∈ rootInputs} := by
  have hnodup : (rootInputs.map rootSha256).Nodup := by
    rw [rootSha256_inputs]
    decide
  exact fun text htext text' htext' => List.inj_on_of_nodup_map hnodup htext htext'

/-- The pairs that are combined for the chain and for the chains it begins with. -/
theorem hashedNodes_take (k : ℕ) {buffer : Bytes} (h : buffer ∈ hashedNodes rootSha256
      ([genesisDigest.1, appendedDigest.1, secondDigest.1, thirdDigest.1].take k)) :
    buffer ∈ rootInputs := by
  have htable := rootSha256_inputs
  simp only [rootInputs, rootTable, List.map_cons, List.map_nil, List.cons.injEq, and_true] at htable
  obtain ⟨-, -, -, -, hleft, hcopied, -, hlast, -⟩ := htable
  have hpairs : ∀ p ∈ [(genesisDigest.1, appendedDigest.1), (secondDigest.1, secondDigest.1),
      (leftDigest.1, copiedPairDigest.1), (secondDigest.1, thirdDigest.1),
      (leftDigest.1, lastPairDigest.1)], p.1 ++ p.2 ∈ rootInputs := by
    simp [rootInputs, rootTable]
  obtain ⟨p, hp, rfl⟩ := h
  refine hpairs p ?_
  match k, hp with
  | 0, hp => simp [MerkleTree.hashedPairs] at hp
  | 1, hp => simp [MerkleTree.hashedPairs] at hp
  | 2, hp =>
    rw [show List.take 2 _ = [genesisDigest.1, appendedDigest.1] from rfl,
      MerkleTree.hashedPairs_two] at hp
    simp only [List.mem_cons, List.not_mem_nil, or_false] at hp ⊢
    exact Or.inl hp
  | 3, hp =>
    rw [show List.take 3 _ = [genesisDigest.1, appendedDigest.1, secondDigest.1] from rfl,
      MerkleTree.hashedPairs_three] at hp
    simp only [merkleNode, hleft, hcopied] at hp
    simp only [List.mem_cons, List.not_mem_nil, or_false] at hp ⊢
    rcases hp with hp | hp | hp <;> simp [hp]
  | k + 4, hp =>
    rw [List.take_of_length_le (by simp), MerkleTree.hashedPairs_four] at hp
    simp only [merkleNode, hleft, hlast] at hp
    simp only [List.mem_cons, List.not_mem_nil, or_false] at hp ⊢
    rcases hp with hp | hp | hp <;> simp [hp]

theorem chainInputs_subset :
    chainInputs rootSha256 sampleGenesis
        (auditRun rootSha256 sampleGenesis none threeCalls).memoryChain ⊆
      {text | text ∈ rootInputs} := by
  have hfacts : (∀ e ∈ (auditRun rootSha256 sampleGenesis none threeCalls).memoryChain.tail,
        textEncode e.text ∈ rootInputs) ∧
      (auditRun rootSha256 sampleGenesis none threeCalls).memoryChain.map leafHash =
        [genesisDigest.1, appendedDigest.1, secondDigest.1, thirdDigest.1] := by
    decide +kernel
  obtain ⟨htexts, hleaves⟩ := hfacts
  rintro buffer ((hgenesis | ⟨e, he, rfl⟩) | ⟨k, hbuffer⟩)
  · rw [hgenesis]
    exact List.mem_cons_self
  · exact htexts e he
  · rw [List.map_take, hleaves] at hbuffer
    exact hashedNodes_take k hbuffer

/-- The roots after two and after three appends. -/
theorem roots_differ_three :
    getMerkleRoot rootSha256
        (auditRun rootSha256 sampleGenesis none (threeCalls.take 2)).memoryChain ≠
      getMerkleRoot rootSha256
        (auditRun rootSha256 sampleGenesis none (threeCalls.take 3)).memoryChain := by
  have hclock : ClockText sampleGenesis.hashTimestamp :=
    ⟨Or.inl (by decide), ascii_of_all (by decide)⟩
  exact roots_differ rootSha256 sampleGenesis rfl hclock threeCalls
    (injOn_rootInputs.mono chainInputs_subset) (by decide) (by decide) (by decide)

end BioFire.AuditChain
