import RelayerCore.Lib.Machine
import RelayerCore.Lib.Feed
import RelayerCore.Lib.Cursor
import RelayerCore.Lib.ExpiringStore
import RelayerCore.Lib.Custody
import RelayerCore.AmplifierApi.Client
import RelayerCore.Ingester.ProcessQueueMsg
import RelayerCore.Ingester.Ingest
import RelayerCore.Supervisor.Model
import RelayerCore.Supervisor.Restart
import RelayerCore.Subscriber.Subscribe
import RelayerCore.Subscriber.Nats
import RelayerCore.Subscriber.Gcp
import RelayerCore.FromAmplifier.Model
import RelayerCore.FromAmplifier.Skip
import RelayerCore.FromAmplifier.Stuck
import RelayerCore.FromAmplifier.Duplicate
import RelayerCore.GcpConsumer.Model
import RelayerCore.GcpConsumer.Lose
import RelayerCore.GcpConsumer.Twice
import RelayerCore.NatsConsumer.Model
import RelayerCore.NatsConsumer.Owed
import RelayerCore.NatsConsumer.Deliverable
import RelayerCore.Lib.Saturating
import RelayerCore.Retry.Model
import RelayerCore.Retry.Schedule
import RelayerCore.Retry.Budget
import RelayerCore.Supervisor.Once
import RelayerCore.Application.Worker
import RelayerCore.NatsConsumer.Group
import RelayerCore.Lib.SharedStore
import RelayerCore.Subscriber.Shared
import RelayerCore.ToAmplifier.Close
import RelayerCore.Lib.Borsh
import RelayerCore.Lib.Decimal
import RelayerCore.AmplifierApi.Borsh
import RelayerCore.AmplifierApi.Json
import RelayerCore.AmplifierApi.Limits
import RelayerCore.Queue.Publish
import RelayerCore.AmplifierApi.JsonRoundTrip
import RelayerCore.Retry.Independent
import RelayerCore.GcpConsumer.Progress
import RelayerCore.Amplifier.Healthcheck
import RelayerCore.BinUtil.Config
import RelayerCore.AmplifierApi.TxEvent
import RelayerCore.Lib.PercentCode
import RelayerCore.Lib.Url
import RelayerCore.AmplifierApi.Requests
import RelayerCore.AmplifierApi.BigInt
import RelayerCore.AmplifierApi.Spelling
import RelayerCore.Queue.Strict
import RelayerCore.Gcp.KvStore
import RelayerCore.Gcp.Publisher
import RelayerCore.Subscriber.Counters
import RelayerCore.GcpConsumer.Throughput
import RelayerCore.Amplifier.Component
import RelayerCore.Amplifier.Ends
import RelayerCore.Engine.Amplifier
import RelayerCore.Ingester.Gcp
import RelayerCore.Lib.Keyed
import RelayerCore.Ingester.Line
import RelayerCore.Ingester.Posts
import RelayerCore.Application.CtrlC
import RelayerCore.Application.GcpIngester
import RelayerCore.Supervisor.Returns
import RelayerCore.Supervisor.Starts
import RelayerCore.FromAmplifier.Delivers
import RelayerCore.Lib.Register
import RelayerCore.Nats.KvStore
import RelayerCore.Subscriber.Pipeline
import RelayerCore.Subscriber.Progress
import RelayerCore.Subscriber.Handled
