import CommitReveal.Node.Client
import CommitReveal.Proofs.Fallible
import CommitReveal.Proofs.KeyText

/-! What a checked configuration is good for. The check reads the addresses, the transaction and the place to listen
at by the very functions that use them later, so those cannot fail afterwards. The key it reads by a rule of its own,
which is wider than that of the signer. -/
namespace CommitReveal.Config

open Secp256k1 (SigningKey)

section Checks

variable {c : Config} {n : Nat} {ds : List Char} {text : String}

/-- What the check makes sure of. -/
structure Sound (c : Config) : Prop where
  node : Text.isBlankText c.rpcUrl = false
  chain : c.chainId ≠ 0
  key : isKeyText c.privateKey = true
  oracle : ∃ a, c.oracle = .ok a
  token : ∃ a, c.token = .ok a
  deployment : ∃ tx, c.deployTxHash = .ok tx
  listen : ∃ a, c.listenAddress = .ok a
  gas : c.gasLimit ≠ 0

theorem require_eq_ok_iff {holds : Bool} {fault : ConfigFault} {u : Unit} :
    require holds fault = .ok u ↔ holds = true := by
  cases holds <;> simp [require]

/-- A text of so many marks and the digits of a key. -/
structure Marked (n : Nat) (ds : List Char) (text : String) : Prop where
  spelled : text.toList = (List.replicate n ['0', 'x']).flatten ++ ds
  digits : Hex.IsDigits 64 ds

theorem dropMarks_append (hds : ∀ c ∈ ds, c ∈ Hex.alphabet) :
    dropMarks ((List.replicate n ['0', 'x']).flatten ++ ds) = ds := by
  induction n with
  | zero =>
    rw [List.replicate_zero, List.flatten_nil, List.nil_append]
    unfold dropMarks
    split
    · exact absurd (hds 'x' (by simp)) (by decide)
    · rfl
  | succ n ih =>
    rw [List.replicate_succ, List.flatten_cons, List.append_assoc]
    exact ih

theorem exists_marks (cs : List Char) : ∃ n, cs = (List.replicate n ['0', 'x']).flatten ++ dropMarks cs := by
  fun_induction dropMarks cs with
  | case1 rest ih =>
    obtain ⟨n, hrest⟩ := ih
    refine ⟨n + 1, ?_⟩
    rw [List.replicate_succ, List.flatten_cons, List.append_assoc, ← hrest]
    rfl
  | case2 cs => exact ⟨0, rfl⟩

theorem isKeyText_iff : isKeyText text = true ↔ ∃ n ds, Marked n ds text := by
  have hdecode (ds : List Char) : ((Hex.decode ds).any fun bytes => bytes.length = 32) = true ↔ Hex.IsDigits 64 ds := by
    rw [Option.any_eq_true]
    simp only [decide_eq_true_eq]
    exact Hex.exists_decode_iff
  rw [isKeyText, hdecode]
  constructor
  · intro h
    obtain ⟨n, htext⟩ := exists_marks text.toList
    exact ⟨n, _, htext, h⟩
  · rintro ⟨n, ds, htext, hds⟩
    rwa [htext, dropMarks_append hds.each]

theorem isBlankText_of_marked (h : Marked n ds text) : Text.isBlankText text = false := by
  have hdigit : ∀ c ∈ Hex.alphabet, Text.isBlank c = false := by simp [Hex.alphabet, Text.isBlank, Text.blankRanges]
  obtain ⟨d, hd⟩ : ∃ d, d ∈ ds := List.exists_mem_of_length_pos (h.digits.length ▸ by decide)
  refine List.all_eq_false.2 ⟨d, ?_, Bool.eq_false_iff.1 (hdigit d (h.digits.each d hd))⟩
  rw [h.spelled]
  exact List.mem_append_right _ hd

theorem validate_eq_ok_iff : c.validate = .ok () ↔ Sound c := by
  unfold validate
  simp only [bind_eq_ok_iff, mapError_eq_ok_iff, require_eq_ok_iff, exists_const, Bool.not_eq_true', decide_eq_true_eq]
  constructor
  · rintro ⟨hnode, hchain, -, hkey, oracle, horacle, token, htoken, tx, htx, listen, hlisten, hgas⟩
    exact ⟨hnode, hchain, hkey, ⟨oracle, horacle⟩, ⟨token, htoken⟩, ⟨tx, htx⟩, ⟨listen, hlisten⟩, hgas⟩
  · rintro ⟨hnode, hchain, hkey, ⟨oracle, horacle⟩, ⟨token, htoken⟩, ⟨tx, htx⟩, ⟨listen, hlisten⟩, hgas⟩
    obtain ⟨n, ds, hmarked⟩ := isKeyText_iff.1 hkey
    exact ⟨hnode, hchain, isBlankText_of_marked hmarked, hkey, oracle, horacle, token, htoken, tx, htx, listen,
      hlisten, hgas⟩

end Checks

section Keys

variable {c : Config} {n : Nat} {ds : List Char} {text : String}

theorem ofText_of_marked (h : Marked n ds text) (hn : n ≤ 1) :
    SigningKey.ofText text = (SigningKey.ofNat? (Net.valueOf 16 ds)).elim (.error .outOfGroup) .ok := by
  have hmark : (List.replicate n ['0', 'x']).flatten ∈ Hex.marks := by
    have hall : ∀ n < 2, (List.replicate n ['0', 'x']).flatten ∈ Hex.marks := by decide
    exact hall n (Nat.lt_succ_of_le hn)
  exact Secp256k1.ofText_of_digits h.digits hmark h.spelled

theorem ofText_of_manyMarks (h : Marked n ds text) (hn : 2 ≤ n) :
    SigningKey.ofText text = .error (.character 'x' 1) := by
  obtain ⟨k, rfl⟩ := Nat.exists_eq_add_of_le' hn
  -- whatever stands behind the first mark, its number of characters is even, so the letter is what is noticed
  have hspelled : text.toList = ['0', 'x'] ++ (['0', 'x'] ++ ((List.replicate k ['0', 'x']).flatten ++ ds)) := h.spelled
  refine Secp256k1.ofText_doubled (fun c hc => ?_) ?_ hspelled
  · rcases List.mem_append.1 hc with hc | hc
    · obtain ⟨mark, hmark, hc⟩ := List.mem_flatten.1 hc
      obtain rfl := List.eq_of_mem_replicate hmark
      exact Secp256k1.lt_of_mem_mark _ (by decide) c hc
    · exact Secp256k1.lt_of_mem_alphabet c (h.digits.each c hc)
  · rw [List.length_append, List.length_flatten, List.map_replicate, List.sum_replicate_nat, h.digits.length,
      List.length_cons, List.length_singleton]
    omega

theorem ofText_of_outOfGroup (h : Marked n ds text) (hn : n ≤ 1)
    (hgroup : ¬(0 < Net.valueOf 16 ds ∧ Net.valueOf 16 ds < Secp256k1.n)) :
    SigningKey.ofText text = .error .outOfGroup := by
  rw [ofText_of_marked h hn, Secp256k1.ofNat?_eq_none_iff.2 hgroup]
  rfl

theorem exists_key_iff (h : Marked n ds text) : (∃ key, SigningKey.ofText text = .ok key) ↔
    n ≤ 1 ∧ 0 < Net.valueOf 16 ds ∧ Net.valueOf 16 ds < Secp256k1.n := by
  constructor
  · rintro ⟨key, hkey⟩
    rcases Nat.lt_or_ge 1 n with hn | hn
    · rw [ofText_of_manyMarks h hn] at hkey
      cases hkey
    refine ⟨hn, Decidable.not_not.1 fun hgroup => ?_⟩
    rw [ofText_of_outOfGroup h hn hgroup] at hkey
    cases hkey
  · rintro ⟨hn, hgroup⟩
    have hkey : SigningKey.ofNat? (Net.valueOf 16 ds) = some ⟨_, hgroup.1, hgroup.2⟩ := dif_pos hgroup
    rw [ofText_of_marked h hn, hkey]
    exact ⟨_, rfl⟩

/-- Once the configuration is checked and the place of the node is read, connecting can only fail on the key. -/
theorem connect_eq_error_iff (h : Sound c) {url : Net.Url} (hurl : Net.Url.read c.rpcUrl = .ok url) {e : ChainError} :
    Node.Client.connect c = .error e ↔
      ∃ fault, SigningKey.ofText c.privateKey = .error fault ∧ .signer fault.message = e := by
  obtain ⟨oracle, horacle⟩ := h.oracle
  obtain ⟨token, htoken⟩ := h.token
  unfold Node.Client.connect
  rw [hurl, horacle, htoken]
  simp [bind_eq_error_iff, mapError_eq_error_iff, mapError_eq_ok_iff, pure, Except.pure]

end Keys

/-- A configuration that the check lets pass does not fail later at what the check has read, but for the
key, which must have one mark at most and a number of the group. -/
theorem validated_fails_only_on_key {c : Config} (h : c.validate = .ok ()) :
    (∃ a, c.listenAddress = .ok a) ∧ (∃ tx, c.deployTxHash = .ok tx) ∧ (∃ a, c.oracle = .ok a) ∧
    (∃ a, c.token = .ok a) ∧
    (∀ url, Net.Url.read c.rpcUrl = .ok url → ∀ e, Node.Client.connect c = .error e ↔
      ∃ fault, SigningKey.ofText c.privateKey = .error fault ∧ .signer fault.message = e) ∧
    (∀ text, (∃ key, SigningKey.ofText text = .ok key) ↔ ∃ mark ∈ Hex.marks, ∃ ds, text.toList = mark ++ ds ∧
      Hex.IsDigits 64 ds ∧ 0 < Net.valueOf 16 ds ∧ Net.valueOf 16 ds < Secp256k1.n) ∧
    ∃ n ds, Marked n ds c.privateKey ∧
      ((∃ key, SigningKey.ofText c.privateKey = .ok key) ↔
        n ≤ 1 ∧ 0 < Net.valueOf 16 ds ∧ Net.valueOf 16 ds < Secp256k1.n) ∧
      (2 ≤ n → SigningKey.ofText c.privateKey = .error (.character 'x' 1)) ∧
      (n ≤ 1 → ¬(0 < Net.valueOf 16 ds ∧ Net.valueOf 16 ds < Secp256k1.n) →
        SigningKey.ofText c.privateKey = .error .outOfGroup) := by
  have hsound := validate_eq_ok_iff.1 h
  obtain ⟨n, ds, hmarked⟩ := isKeyText_iff.1 hsound.key
  exact ⟨hsound.listen, hsound.deployment, hsound.oracle, hsound.token,
    fun url hurl e => connect_eq_error_iff hsound hurl, fun text => Secp256k1.exists_ofText_iff,
    n, ds, hmarked, exists_key_iff hmarked, ofText_of_manyMarks hmarked, ofText_of_outOfGroup hmarked⟩

theorem Sound.withKey {c : Config} (h : Sound c) {key : String} (hkey : isKeyText key = true) :
    Sound { c with privateKey := key } :=
  { h with key := hkey }

def sample : Config where
  rpcUrl := "http://localhost:8545"
  chainId := 1337
  oracleAddress := "0x00000000000000000000000000000000000000aa"
  tokenAddress := "0x00000000000000000000000000000000000000bb"
  privateKey := "0x4c0883a69102937d6231471b5dbb6204fe5129617082792ae468d01a3f362318"
  dbPath := "./data/agent.db"
  httpListen := "127.0.0.1:8080"
  startBlock := none
  deployTx := some "0xabababababababababababababababababababababababababababababababab"
  confirmations := 0
  gasLimit := 1000000
  gasPrice := 5000000000
  allowanceTokens := 10000000000
  rpcTimeoutSeconds := 10
  liveGraceSeconds := 10

def doublyMarked : Config :=
  { sample with privateKey := "0x0x4c0883a69102937d6231471b5dbb6204fe5129617082792ae468d01a3f362318" }

def zeroKey : Config :=
  { sample with privateKey := "0000000000000000000000000000000000000000000000000000000000000000" }

theorem sound_sample : Sound sample :=
  validate_eq_ok_iff.1 rfl

theorem validated_fails_only_on_key_goodAndZero :
    sample.validate = .ok () ∧ (∃ client, Node.Client.connect sample = .ok client) ∧
    zeroKey.validate = .ok () ∧ Node.Client.connect zeroKey = .error (.signer "signature error") := by
  have hgood := validate_eq_ok_iff.2 sound_sample
  have hzero : zeroKey.validate = .ok () := validate_eq_ok_iff.2 (sound_sample.withKey rfl)
  obtain ⟨-, -, -, -, hconnect, -⟩ := validated_fails_only_on_key hgood
  obtain ⟨-, -, -, -, hconnect', -⟩ := validated_fails_only_on_key hzero
  refine ⟨hgood, ?_, hzero, (hconnect' _ rfl _).2 ⟨.outOfGroup, rfl, rfl⟩⟩
  cases hclient : Node.Client.connect sample with
  | ok client => exact ⟨client, rfl⟩
  | error e =>
    have hkey : ∃ key, SigningKey.ofText sample.privateKey = .ok key := ⟨_, rfl⟩
    obtain ⟨key, hkey⟩ := hkey
    obtain ⟨fault, hfault, -⟩ := (hconnect _ rfl e).1 hclient
    cases hkey.symm.trans hfault

/-- The check lets a second mark pass and the number zero, and the signer refuses both. -/
theorem validated_key_refused :
    doublyMarked.validate = .ok () ∧ SigningKey.ofText doublyMarked.privateKey = .error (.character 'x' 1) ∧
    zeroKey.validate = .ok () ∧ SigningKey.ofText zeroKey.privateKey = .error .outOfGroup :=
  ⟨validate_eq_ok_iff.2 (sound_sample.withKey rfl), rfl, validate_eq_ok_iff.2 (sound_sample.withKey rfl), rfl⟩

end CommitReveal.Config
