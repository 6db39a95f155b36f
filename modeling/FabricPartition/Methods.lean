import FabricPartition.Conversation

/-!
# The typed methods of the client

Every typed method of `PartitionClient` encodes its argument, exchanges the request, and decodes the
payload of the response.

**What a typed method returns is what the server's runtime returned for the same argument**
(`typed_methods_remote`): from the call of the method to its value there are two encodings, two streams
of bytes, the thread of a session among others, and one call of the runtime.

Only `publish_evidence` looks at the type of the response.  The other methods take a protocol error for
an answer, and decode the report of the error as a result of the runtime.
-/

set_option autoImplicit false

namespace FabricPartition

/-! ## The methods -/

/-- A typed method: the request, and what is made of the response. -/
structure Method (α : Type) where
  type : MessageType
  payload : Bytes
  /-- The type of response that is insisted on. -/
  expected : Option MessageType := none
  decode : Bytes → Option α
  undecodable : String

/-- What the method returns, or its error. -/
def Method.returns {α : Type} (m : Method α) (response : ClientResponse) : Except String α :=
  if !response.ok then .error response.error
  else if m.expected.any fun type => response.type ≠ type.code then .error "unexpected response type"
  else
    match m.decode response.payload with
    | none => .error m.undecodable
    | some value => .ok value

namespace PartitionClient

/-- `publish_evidence`. -/
def publishEvidence (limits : Limits) (evidence : ReachabilityEvidence) : Method OperationResult where
  type := .publishEvidence
  payload := encodeEvidence evidence limits
  expected := some .publishEvidenceAck
  decode payload := decodeOperationResult payload limits
  undecodable := "the response payload could not be decoded"

/-- A method that is answered with the result of an operation. -/
def operates (limits : Limits) (type : MessageType) (payload : Bytes) : Method OperationResult where
  type := type
  payload := payload
  decode payload := decodeOperationResult payload limits
  undecodable := "the response payload could not be decoded"

/-- `adopt_topology`. -/
def adoptTopology (limits : Limits) (definition : TopologyDefinition) : Method OperationResult :=
  operates limits .adoptTopology (encodeTopology definition)

/-- `set_policy`. -/
def setPolicy (limits : Limits) (policy : PartitionPolicy) : Method OperationResult :=
  operates limits .setPolicy (encodePolicy policy)

/-- `isolate`. -/
def isolate (limits : Limits) (request : IsolationRequest) : Method OperationResult :=
  operates limits .isolate (encodeIsolationRequest request false)

/-- `clear_isolation`. -/
def clearIsolation (limits : Limits) (request : IsolationRequest) : Method OperationResult :=
  operates limits .isolate (encodeIsolationRequest request true)

/-- `revalidate`. -/
def revalidate (limits : Limits) (request : RevalidationRequest) : Method OperationResult :=
  operates limits .revalidate (encodeRevalidationRequest request)

/-- `retire`. -/
def retire (limits : Limits) (request : RetireRequest) : Method OperationResult :=
  operates limits .retire (encodeRetireRequest request)

/-- `request_merge`. -/
def requestMerge (limits : Limits) (request : MergeRequest) : Method MergeAckView where
  type := .merge
  payload := encodeMergeRequest request
  decode payload := decodeMergeAck payload limits
  undecodable := "the merge payload could not be decoded"

/-- `assess`. -/
def assess (limits : Limits) : Method AssessmentView where
  type := .assess
  payload := []
  decode payload := decodeAssessmentView payload limits
  undecodable := "the assessment payload could not be decoded"

/-- `status`. -/
def status : Method StatusView where
  type := .queryStatus
  payload := []
  decode payload := decodeStatusView payload
  undecodable := "the status payload could not be decoded"

/-- `partitions`. -/
def partitions (limits : Limits) : Method (List PartitionView) where
  type := .queryPartitions
  payload := []
  decode payload := (decodeAssessmentView payload limits).map AssessmentView.partitions
  undecodable := "the partition payload could not be decoded"

/-- `fences`. -/
def fences (limits : Limits) : Method (List FenceRecord) where
  type := .queryFences
  payload := []
  decode payload := decodeFenceList payload limits
  undecodable := "the fence payload could not be decoded"

/-- `lineage`. -/
def lineage (limits : Limits) : Method (List LineageRecord) where
  type := .queryLineage
  payload := []
  decode payload := decodeLineageList payload limits
  undecodable := "the lineage payload could not be decoded"

end PartitionClient

/-! ## What they stand for -/

/-- The result a response of the runtime is reported as. -/
def Response.result : Response → Option OperationResult
  | .decision d => some (resultOf d.verdict d)
  | .isolation outcome => some (resultOf outcome.verdict outcome.decision)
  | .revalidation outcome => some (resultOf outcome.verdict outcome.decision)
  | _ => none

/-- The acknowledgement a merge is reported as. -/
def Response.mergeAck : Response → Option MergeAckView
  | .merge outcome => some
      ⟨resultOf outcome.verdict outcome.decision, outcome.mergedLineage, outcome.mergedPartition⟩
  | _ => none

/-- A request, what the runtime returned to its execution, and the values that fit into the bounds of
an answer. -/
structure Meaning (α : Type) where
  request : Request
  returned : Execution → Option α
  fits : α → Prop

namespace Meaning

variable (limits : Limits)

/-- An operation. -/
def operation (operation : Operation) : Meaning OperationResult where
  request := .operation operation
  returned e := (e.runtime.call ⟨operation, e.faults⟩).1.result
  fits result := ReasonsFit limits result.reasons

/-- A merge. -/
def merge (request : MergeRequest) : Meaning MergeAckView where
  request := .operation (.requestMerge request)
  returned e := (e.runtime.call ⟨.requestMerge request, e.faults⟩).1.mergeAck
  fits view := ReasonsFit limits view.result.reasons

/-- An assessment: what it returned is dropped, and the last one is viewed. -/
def assessment : Meaning AssessmentView where
  request := .operation .assess
  returned e := e.viewed.map fun r => makeAssessmentView r.assessment r
  fits := AssessmentView.FitsIn limits

def status : Meaning StatusView where
  request := .queryStatus
  returned e := some (makeStatusView e.runtime)
  fits _ := True

def partitions : Meaning (List PartitionView) where
  request := .queryPartitions
  returned e := some (e.runtime.assessment.partitions.map makePartitionView)
  fits views := Fits limits.maxPartitions views.length ∧ ∀ view ∈ views, view.FitsIn

def fences : Meaning (List FenceRecord) where
  request := .queryFences
  returned e := some e.runtime.fences
  fits := FencesFit limits

def lineage : Meaning (List LineageRecord) where
  request := .queryLineage
  returned e := some e.runtime.lineage.records
  fits := LineageFits limits

end Meaning

open PartitionClient in
/-- What the typed methods stand for, on arguments that fit into the bounds of a request. -/
inductive StandsFor (limits : Limits) : {α : Type} → Method α → Meaning α → Prop
  | publishEvidence {evidence : ReachabilityEvidence} (h : evidence.FitsIn limits) :
    StandsFor limits (publishEvidence limits evidence) (.operation limits (.ingestEvidence evidence))
  | adoptTopology {definition : TopologyDefinition} (h : definition.FitsIn limits) :
    StandsFor limits (adoptTopology limits definition) (.operation limits (.adoptTopology definition))
  | setPolicy {policy : PartitionPolicy} (h : policy.FitsIn limits) :
    StandsFor limits (setPolicy limits policy) (.operation limits (.setPolicy policy))
  | isolate (request : IsolationRequest) :
    StandsFor limits (isolate limits request) (.operation limits (.isolate request))
  | clearIsolation (request : IsolationRequest) :
    StandsFor limits (clearIsolation limits request) (.operation limits (.clearIsolation request))
  | revalidate (request : RevalidationRequest) :
    StandsFor limits (revalidate limits request) (.operation limits (.revalidate request))
  | retire (request : RetireRequest) :
    StandsFor limits (retire limits request) (.operation limits (.retire request))
  | requestMerge (request : MergeRequest) :
    StandsFor limits (requestMerge limits request) (.merge limits request)
  | assess : StandsFor limits (assess limits) (.assessment limits)
  | status : StandsFor limits status .status
  | partitions : StandsFor limits (partitions limits) (.partitions limits)
  | fences : StandsFor limits (fences limits) (.fences limits)
  | lineage : StandsFor limits (lineage limits) (.lineage limits)

section StandsFor

variable {limits : Limits} {α : Type} {m : Method α} {meaning : Meaning α}

/-- **The request arrives** as what the method stands for. -/
theorem StandsFor.decodes (h : StandsFor limits m meaning) :
    decodeRequest m.type m.payload limits = some meaning.request := by
  cases h with
  | @publishEvidence evidence h =>
    have hread : decodeEvidence (encodeEvidence evidence limits) limits = some evidence :=
      ((codec_evidence limits).whole_iff _ _).mpr ⟨h, rfl⟩
    simp [PartitionClient.publishEvidence, Meaning.operation, decodeRequest, hread]
  | @adoptTopology definition h =>
    have hread : decodeTopology (encodeTopology definition) limits = some definition :=
      ((codec_topology limits).whole_iff _ _).mpr ⟨h, rfl⟩
    simp [PartitionClient.adoptTopology, PartitionClient.operates, Meaning.operation, decodeRequest,
      hread]
  | @setPolicy policy h =>
    have hread : decodePolicy (encodePolicy policy) limits = some policy :=
      ((codec_policy limits).whole_iff _ _).mpr ⟨h, rfl⟩
    simp [PartitionClient.setPolicy, PartitionClient.operates, Meaning.operation, decodeRequest, hread]
  | isolate request =>
    have hread : decodeIsolationRequest (encodeIsolationRequest request false)
        = some (request, false) := (codec_isolationRequest.whole_iff _ _).mpr ⟨trivial, rfl⟩
    simp [PartitionClient.isolate, PartitionClient.operates, Meaning.operation, decodeRequest, hread]
  | clearIsolation request =>
    have hread : decodeIsolationRequest (encodeIsolationRequest request true)
        = some (request, true) := (codec_isolationRequest.whole_iff _ _).mpr ⟨trivial, rfl⟩
    simp [PartitionClient.clearIsolation, PartitionClient.operates, Meaning.operation, decodeRequest,
      hread]
  | revalidate request =>
    have hread : decodeRevalidationRequest (encodeRevalidationRequest request) = some request :=
      (codec_revalidationRequest.whole_iff _ _).mpr ⟨trivial, rfl⟩
    simp [PartitionClient.revalidate, PartitionClient.operates, Meaning.operation, decodeRequest,
      hread]
  | retire request =>
    have hread : decodeRetireRequest (encodeRetireRequest request) = some request :=
      (codec_retireRequest.whole_iff _ _).mpr ⟨trivial, rfl⟩
    simp [PartitionClient.retire, PartitionClient.operates, Meaning.operation, decodeRequest, hread]
  | requestMerge request =>
    have hread : decodeMergeRequest (encodeMergeRequest request) = some request :=
      (codec_mergeRequest.whole_iff _ _).mpr ⟨trivial, rfl⟩
    simp [PartitionClient.requestMerge, Meaning.merge, decodeRequest, hread]
  | assess | status | partitions | fences | lineage => rfl

theorem PartitionRuntime.respond_returns {β : Type} (wrap : β → Response) (act : RuntimeAct β)
    (r : PartitionRuntime) :
    (∃ v, (PartitionRuntime.respond wrap act r).1 = wrap v) ∨
      ∃ error, (PartitionRuntime.respond wrap act r).1 = .threw error := by
  rw [PartitionRuntime.respond]
  rcases act r with ⟨error | v, r'⟩
  · exact .inr ⟨error, rfl⟩
  · exact .inl ⟨v, rfl⟩

/-- What the execution of an operation was to be answered with, if that is the report of a result. -/
theorem Execution.Gives.result {e : Execution} {type : UInt16} {payload : Bytes}
    (h : e.Gives limits type payload) {operation : Operation}
    (hrequest : e.frame.request limits = some (.operation operation))
    (hreturns : (∃ result, (e.runtime.call ⟨operation, e.faults⟩).1.result = some result) ∨
      ∃ error, (e.runtime.call ⟨operation, e.faults⟩).1 = .threw error) :
    ∃ result, (Meaning.operation limits operation).returned e = some result ∧
      payload = encodeOperationResult result limits := by
  obtain ⟨-, request, hsame, hanswer⟩ := h
  rw [hrequest] at hsame
  cases hsame
  rw [show ((Request.operation operation).perform limits e.faults e.runtime).1
    = answer limits (e.runtime.call ⟨operation, e.faults⟩).1 from rfl] at hanswer
  rcases hreturns with ⟨result, hresult⟩ | ⟨error, hthrew⟩
  · refine ⟨result, hresult, ?_⟩
    generalize (e.runtime.call ⟨operation, e.faults⟩).1 = response at hresult hanswer
    cases response <;> simp only [Response.result, Option.some.injEq, reduceCtorEq] at hresult <;>
      subst hresult <;> exact hanswer
  · rw [hthrew] at hanswer
    exact hanswer.elim

/-- A result that is reported is read back. -/
theorem operation_answers {m : Method OperationResult} {operation : Operation} {e : Execution}
    {type : UInt16} {payload : Bytes}
    (hdecode : m.decode = fun payload => decodeOperationResult payload limits)
    (hrequest : e.frame.request limits = some (.operation operation))
    (hgives : e.Gives limits type payload) {β : Type} (wrap : β → Response) (act : RuntimeAct β)
    (hperform : ∀ r : PartitionRuntime, r.perform operation = PartitionRuntime.respond wrap act r)
    (hwrap : ∀ v, ∃ result, (wrap v).result = some result) :
    ∃ v, (Meaning.operation limits operation).returned e = some v ∧
      ((Meaning.operation limits operation).fits v → m.decode payload = some v) := by
  have hreturns := PartitionRuntime.respond_returns wrap act (e.runtime.withFaults e.faults)
  rw [← hperform] at hreturns
  obtain ⟨result, hreturned, rfl⟩ := hgives.result hrequest (hreturns.imp_left fun ⟨v, hv⟩ => by
    obtain ⟨result, hresult⟩ := hwrap v
    exact ⟨result, by rw [PartitionRuntime.call, hv, hresult]⟩)
  refine ⟨result, hreturned, fun hfits => ?_⟩
  rw [hdecode]
  exact ((codec_operationResult limits).whole_iff _ _).mpr ⟨hfits, rfl⟩

/-- **The answer arrives** as what the runtime returned. -/
theorem StandsFor.answers (h : StandsFor limits m meaning) {e : Execution} {type : UInt16}
    {payload : Bytes} (hrequest : e.frame.request limits = some meaning.request)
    (hgives : e.Gives limits type payload) :
    ∃ v, meaning.returned e = some v ∧ (meaning.fits v → m.decode payload = some v) := by
  have hdecision : ∀ d : Decision, ∃ result, (Response.decision d).result = some result :=
    fun _ => ⟨_, rfl⟩
  have hisolation : ∀ o : IsolationOutcome, ∃ result, (Response.isolation o).result = some result :=
    fun _ => ⟨_, rfl⟩
  have hrevalidation : ∀ o : RevalidationOutcome,
      ∃ result, (Response.revalidation o).result = some result := fun _ => ⟨_, rfl⟩
  -- the answer to a query is made of the runtime it is executed on
  have hquery : ∀ {request : Request} {image : Bytes}, e.frame.request limits = some request →
      (request.perform limits e.faults e.runtime).1 = .answered image → payload = image := by
    intro request image hrequest hperform
    obtain ⟨-, request', hsame, hanswer⟩ := hgives
    rw [hrequest] at hsame
    cases hsame
    rw [hperform] at hanswer
    exact hanswer
  cases h with
  | @publishEvidence evidence _ =>
    exact operation_answers rfl hrequest hgives .decision (PartitionRuntime.ingestEvidence evidence) (fun _ => rfl) hdecision
  | @adoptTopology definition _ =>
    exact operation_answers rfl hrequest hgives .decision (PartitionRuntime.adoptTopology definition) (fun _ => rfl) hdecision
  | @setPolicy policy _ =>
    exact operation_answers rfl hrequest hgives .decision (PartitionRuntime.setPolicy policy) (fun _ => rfl) hdecision
  | isolate request =>
    exact operation_answers rfl hrequest hgives .isolation (PartitionRuntime.isolate request) (fun _ => rfl) hisolation
  | clearIsolation request =>
    exact operation_answers rfl hrequest hgives .isolation (PartitionRuntime.clearIsolation request) (fun _ => rfl) hisolation
  | revalidate request =>
    exact operation_answers rfl hrequest hgives .revalidation (PartitionRuntime.revalidate request) (fun _ => rfl) hrevalidation
  | retire request =>
    exact operation_answers rfl hrequest hgives .decision (PartitionRuntime.retire request) (fun _ => rfl) hdecision
  | requestMerge request =>
    obtain ⟨-, request', hsame, hanswer⟩ := hgives
    rw [hrequest] at hsame
    cases hsame
    rw [show ((Meaning.merge limits request).request.perform limits e.faults e.runtime).1
      = answer limits (e.runtime.call ⟨.requestMerge request, e.faults⟩).1 from rfl] at hanswer
    rcases PartitionRuntime.respond_returns .merge (PartitionRuntime.requestMerge request)
      (e.runtime.withFaults e.faults) with ⟨outcome, houtcome⟩ | ⟨error, hthrew⟩
    · have hcall : (e.runtime.call ⟨.requestMerge request, e.faults⟩).1 = .merge outcome := houtcome
      rw [hcall] at hanswer
      refine ⟨⟨resultOf outcome.verdict outcome.decision, outcome.mergedLineage,
        outcome.mergedPartition⟩, ?_, fun hfits => ?_⟩
      · rw [Meaning.merge]
        dsimp only
        rw [hcall, Response.mergeAck]
      · exact ((codec_mergeAck limits).whole_iff _ _).mpr ⟨hfits, hanswer⟩
    · have hcall : (e.runtime.call ⟨.requestMerge request, e.faults⟩).1 = .threw error := hthrew
      rw [hcall] at hanswer
      exact hanswer.elim
  | assess =>
    obtain ⟨-, request', hsame, hanswer⟩ := hgives
    rw [hrequest] at hsame
    cases hsame
    rw [show ((Meaning.assessment limits).request.perform limits e.faults e.runtime).1
      = answer limits (e.runtime.call ⟨.assess, e.faults⟩).1 from rfl] at hanswer
    rcases PartitionRuntime.respond_returns .assessment PartitionRuntime.assess
      (e.runtime.withFaults e.faults) with ⟨outcome, houtcome⟩ | ⟨error, hthrew⟩
    · have hcall : (e.runtime.call ⟨.assess, e.faults⟩).1 = .assessment outcome := houtcome
      rw [hcall] at hanswer
      obtain ⟨r, hviewed, hpayload⟩ := hanswer
      refine ⟨makeAssessmentView r.assessment r, ?_, fun hfits => ?_⟩
      · rw [Meaning.assessment]
        dsimp only
        rw [hviewed, Option.map_some]
      · exact ((codec_assessmentView limits).whole_iff _ _).mpr ⟨hfits, hpayload⟩
    · have hcall : (e.runtime.call ⟨.assess, e.faults⟩).1 = .threw error := hthrew
      rw [hcall] at hanswer
      exact hanswer.elim
  | status =>
    have himage : payload = encodeStatusView (makeStatusView e.runtime) := hquery hrequest rfl
    exact ⟨makeStatusView e.runtime, rfl, fun _ =>
      (codec_statusView.whole_iff _ _).mpr ⟨trivial, himage⟩⟩
  | partitions =>
    have himage : payload = encodeAssessmentView (makePartitionsView e.runtime) limits :=
      hquery hrequest rfl
    refine ⟨(makePartitionsView e.runtime).partitions, rfl, fun hfits => ?_⟩
    have hview : decodeAssessmentView payload limits = some (makePartitionsView e.runtime) :=
      ((codec_assessmentView limits).whole_iff _ _).mpr ⟨⟨hfits.1, hfits.2, ?_⟩, himage⟩
    · rw [PartitionClient.partitions]
      dsimp only
      rw [hview]
      rfl
    · simp [makePartitionsView, ReasonsFit, Fits]
  | fences =>
    have himage : payload = encodeFenceList e.runtime.fences limits := hquery hrequest rfl
    exact ⟨e.runtime.fences, rfl, fun hfits =>
      ((codec_fenceList limits).whole_iff _ _).mpr ⟨hfits, himage⟩⟩
  | lineage =>
    have himage : payload = encodeLineageList e.runtime.lineage.records limits := hquery hrequest rfl
    exact ⟨e.runtime.lineage.records, rfl, fun hfits =>
      ((codec_lineageList limits).whole_iff _ _).mpr ⟨hfits, himage⟩⟩

theorem MessageType.ofCode_code (type : MessageType) : MessageType.ofCode type.code = some type := by
  cases type <;> rfl

/-- A frame bears the request of a method. -/
def Method.Asked {α : Type} (m : Method α) (frame : Frame) : Prop :=
  frame.header.type = m.type.code ∧ frame.payload = m.payload

/-- A method returns the value that was decoded. -/
theorem Method.returns_value {response : ClientResponse} {v : α} (hok : response.ok = true)
    (hexpected : ∀ type ∈ m.expected, response.type = type.code)
    (hvalue : m.decode response.payload = some v) : m.returns response = .ok v := by
  have hany : (m.expected.any fun type => decide (response.type ≠ type.code)) = false := by
    rcases hm : m.expected with _ | type
    · rfl
    · simp [hexpected type hm]
  rw [Method.returns, hok, if_neg (by simp), hany, if_neg (by simp), hvalue]

/-- The type a method insists on is the one its request is answered with. -/
theorem StandsFor.expected (h : StandsFor limits m meaning) {type : MessageType}
    (htype : type ∈ m.expected) : m.type.response = some type := by
  cases h <;> cases htype
  rfl

end StandsFor

end FabricPartition
