import ModelExpress.Collective.Idempotency
import ModelExpress.Collective.Recovery
import ModelExpress.Collective.ReadGroup
import ModelExpress.Refit.Publications
import ModelExpress.Reshard.Conversion
import ModelExpress.Reshard.Schedule
import ModelExpress.Reshard.Streaming
import ModelExpress.M2n.Submission
import ModelExpress.M2n.Quarantine
import ModelExpress.M2n.Success
import ModelExpress.Generator.Advertised
import ModelExpress.Generator.Surgical
import ModelExpress.Megatron.Exactness
import ModelExpress.Vllm.Finishing
import ModelExpress.Registry.Agreement
import ModelExpress.Registry.HubCache
import ModelExpress.Registry.KubernetesFencing
import ModelExpress.Worker.TensorReads
import ModelExpress.Collective.Ranks
import ModelExpress.Refit.Scopes
import ModelExpress.Nixl.Registrations
import ModelExpress.Gcs.Cache
import ModelExpress.Reshard.Metrics
import ModelExpress.Reshard.Digest
import ModelExpress.Megatron.Rendezvous
import ModelExpress.Generator.Replicas
import ModelExpress.Generator.ReplayChain
import ModelExpress.Reshard.DescriptorCache
import ModelExpress.Reshard.Groups
import ModelExpress.Worker.ChunkRelease
import ModelExpress.Megatron.QkvPaths
import ModelExpress.M2n.Teardown
