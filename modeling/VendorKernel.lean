import VendorKernel.Walt.TopIndex
import VendorKernel.Walt.WindowElection
import VendorKernel.Walt.OverAccounting
import VendorKernel.Walt.LoadConservation
import VendorKernel.Walt.WindowSums
import VendorKernel.Walt.TopCounts
import VendorKernel.Walt.NrIntegral
import VendorKernel.Qrtr.FlowControl
import VendorKernel.Walt.Drain
import VendorKernel.Ipc.LogFifo
import VendorKernel.Qrtr.GenpoolDelivery
import VendorKernel.Qmi.RoundTrip
import VendorKernel.Glink.Receive
import VendorKernel.Glink.IntentSafety
import VendorKernel.Glink.DeliveryIntegrity
import VendorKernel.Glink.ChannelLifetime
import VendorKernel.Qrtr.Observers
import VendorKernel.Qrtr.Isolation
import VendorKernel.Rpmh.Flush
import VendorKernel.Rpmh.Inflight
import VendorKernel.Interconnect.BcmBatches
import VendorKernel.Gunyah.Populate
import VendorKernel.Qmsgq.Transport
import VendorKernel.MemBuf.Vmperm
import VendorKernel.MemBuf.Supplier
import VendorKernel.MemBuf.Workers
import VendorKernel.Hab.Recv
import VendorKernel.MemBuf.Txn
import VendorKernel.Smem.Private
import VendorKernel.Hab.PipeRuns
import VendorKernel.Iommu.FastTlb
import VendorKernel.Iommu.LpaeSweep
import VendorKernel.Gunyah.IrqLend
import VendorKernel.Crm.Votes
import VendorKernel.Walt.CoreCtl
import VendorKernel.Walt.Prediction
import VendorKernel.Smp2p.Inbound
import VendorKernel.Qrtr.Ports
import VendorKernel.Walt.BusyBitmap
import VendorKernel.Interconnect.NodeAggregate
import VendorKernel.Gunyah.MsgqTable
import VendorKernel.Glink.IntentRequest
import VendorKernel.Smp2p.Statistics
import VendorKernel.Walt.PipelineManual
import VendorKernel.Walt.Mvp
import VendorKernel.Walt.SmartFreq
import VendorKernel.Qrtr.Endpoint
